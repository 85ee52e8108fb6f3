import Dayseam.Connectors.LocalGit
import Dayseam.Lib.SortedDedup
import Mathlib

/-!
# The discovery of repositories

The scan roots are walked one after the other, each a depth at a time, until as many
repositories were found as the cap allows.  A repository that two roots lead to is counted
twice, and the walk takes itself for truncated at the first directory behind the cap, whatever
is there.

## Main definitions

* `Reachable` — what the walk of a scan root may come to.
* `visitsAll` — the directories in the order of the walk, if it had no cap.
* `Exact` — what the outcome of a discovery ought to be.

## Main results

* `mem_found_iff` — the walk without a cap comes to what can be reached.
* `discoverRepos_eq` — the outcome, from the order of the walk.
* `discovery_exact_iff` — **when a discovery is exact.**
-/

namespace Dayseam
namespace LocalGit

variable (fs : FileSystem) (config : DiscoveryConfig)

/-! ### What can be reached -/

/-- The directories that the walk of a root may come to, with their depth. -/
inductive Reachable (root : PathBuf) : PathBuf → ℕ → Prop
  | root : Reachable root root 0
  | child {dir : PathBuf} {depth : ℕ} {names : List Text} {name : Text}
      (h : Reachable root dir depth) (hdepth : depth < config.maxDepth)
      (hrepo : isGitRepo fs dir = false) (hread : fs.readDir dir = some names)
      (hname : name ∈ names) (hdir : isPlainDir fs (dir.join name) = true)
      (hhidden : isHiddenNonGit name = false) (hprotected : isMacosProtectedName name = false) :
      Reachable root (dir.join name) (depth + 1)

/-- A repository that a scan root leads to. -/
def IsFound (roots : List PathBuf) (path : PathBuf) : Prop :=
  isGitRepo fs path = true ∧ ∃ root ∈ roots, ∃ depth, Reachable fs config root path depth

/-! ### The order of the walk -/

/-- The directories that a directory adds to the queue. -/
def below (dir : PathBuf) : List PathBuf :=
  if isGitRepo fs dir then [] else ((fs.readDir dir).map (children fs dir)).getD []

/-- The directories at some depth below others. -/
def deeper (dirs : List PathBuf) (depth : ℕ) : List PathBuf :=
  (fun ds : List PathBuf => ds.flatMap (below fs))^[depth] dirs

def visitsFrom (dirs : List PathBuf) (levels : ℕ) : List PathBuf :=
  (List.range levels).flatMap (deeper fs dirs)

/-- The directories of a walk without a cap, in order. -/
def visitsAll (roots : List PathBuf) : List PathBuf :=
  roots.flatMap fun root => visitsFrom fs [root] (config.maxDepth + 1)

/-- The repositories of a walk without a cap, as often as it comes to them. -/
def found (roots : List PathBuf) : List PathBuf :=
  (visitsAll fs config roots).filter (isGitRepo fs)

/-- How many repositories there are. -/
def repoCount (roots : List PathBuf) : ℕ :=
  ((found fs config roots).map PathBuf.components).dedup.length

variable {fs config} {root path dir : PathBuf} {roots dirs : List PathBuf} {depth : ℕ}

theorem mem_below_iff : path ∈ below fs dir ↔ isGitRepo fs dir = false ∧ ∃ names,
    fs.readDir dir = some names ∧ ∃ name ∈ names, isPlainDir fs (dir.join name) = true ∧
      isHiddenNonGit name = false ∧ isMacosProtectedName name = false ∧ dir.join name = path := by
  unfold below
  cases hrepo : isGitRepo fs dir with
  | true => simp
  | false =>
    cases hread : fs.readDir dir with
    | none => simp
    | some names => simp [children, List.mem_mergeSort, and_assoc]

theorem deeper_succ (dirs : List PathBuf) (depth : ℕ) :
    deeper fs dirs (depth + 1) = (deeper fs dirs depth).flatMap (below fs) :=
  Function.iterate_succ_apply' _ _ _

/-- The directories of a depth are those that can be reached there. -/
theorem mem_deeper_iff (h : depth ≤ config.maxDepth) :
    path ∈ deeper fs [root] depth ↔ Reachable fs config root path depth := by
  induction depth generalizing path with
  | zero =>
    refine ⟨fun hp => ?_, fun hp => ?_⟩
    · rw [List.mem_singleton.mp hp]
      exact .root
    · cases hp
      exact List.mem_singleton_self _
  | succ depth ih =>
    rw [deeper_succ, List.mem_flatMap]
    constructor
    · rintro ⟨dir, hdir, hpath⟩
      obtain ⟨hrepo, names, hread, name, hname, hplain, hhidden, hprotected, rfl⟩ :=
        mem_below_iff.mp hpath
      exact .child ((ih (by omega)).mp hdir) (by omega) hrepo hread hname hplain hhidden hprotected
    · rintro (_ | ⟨hreach, -, hrepo, hread, hname, hplain, hhidden, hprotected⟩)
      exact ⟨_, (ih (by omega)).mpr hreach, mem_below_iff.mpr
        ⟨hrepo, _, hread, _, hname, hplain, hhidden, hprotected, rfl⟩⟩

theorem Reachable.depth_le (h : Reachable fs config root path depth) :
    depth ≤ config.maxDepth := by
  cases h with
  | root => exact Nat.zero_le _
  | child _ hdepth => omega

/-- The walk without a cap comes to what can be reached. -/
theorem mem_found_iff : path ∈ found fs config roots ↔ IsFound fs config roots path := by
  simp only [found, visitsAll, visitsFrom, List.mem_filter, List.mem_flatMap, List.mem_range,
    IsFound]
  rw [and_comm]
  refine and_congr_right fun _ => exists_congr fun root => and_congr_right fun _ => ?_
  constructor
  · rintro ⟨depth, hdepth, hpath⟩
    exact ⟨depth, (mem_deeper_iff (by omega)).mp hpath⟩
  · rintro ⟨depth, hreach⟩
    exact ⟨depth, by have := hreach.depth_le; omega, (mem_deeper_iff hreach.depth_le).mpr hreach⟩

/-! ### The walk -/

/-- The walk along the directories in order, up to the cap. -/
def scan (fs : FileSystem) (cap : ℕ) : List PathBuf → List DiscoveredRepo →
    List DiscoveredRepo × Bool
  | [], out => (out, false)
  | dir :: dirs, out =>
    if cap ≤ out.length then (out, true)
    else if isGitRepo fs dir then scan fs cap dirs (out ++ [.fromPath dir])
    else scan fs cap dirs out

variable {cap : ℕ} {out : List DiscoveredRepo}

theorem scan_append (dirs' : List PathBuf) : scan fs cap (dirs ++ dirs') out =
    if (scan fs cap dirs out).2 then scan fs cap dirs out
    else scan fs cap dirs' (scan fs cap dirs out).1 := by
  induction dirs generalizing out with
  | nil => simp [scan]
  | cons dir dirs ih =>
    rw [List.cons_append, scan, scan]
    by_cases hcap : cap ≤ out.length
    · simp only [if_pos hcap, if_true]
    · simp only [if_neg hcap]
      by_cases hrepo : isGitRepo fs dir
      · simp only [if_pos hrepo, ih]
      · simp only [if_neg hrepo, ih]

/-- One depth of the walk, and the directories of the next one. -/
theorem walkLevel_eq (hread : depth = 0 → ∀ dir ∈ dirs, (fs.readDir dir).isSome) :
    ∃ next, walkLevel fs config depth dirs out =
        .ok ((scan fs config.maxRoots dirs out).1, next, (scan fs config.maxRoots dirs out).2) ∧
      ((scan fs config.maxRoots dirs out).2 = false → depth < config.maxDepth →
        next = dirs.flatMap (below fs)) := by
  induction dirs generalizing out with
  | nil => exact ⟨[], rfl, fun _ _ => rfl⟩
  | cons dir dirs ih =>
    have hread' : depth = 0 → ∀ dir ∈ dirs, (fs.readDir dir).isSome := fun h d hd =>
      hread h d (List.mem_cons_of_mem _ hd)
    rw [walkLevel, scan]
    by_cases hcap : config.maxRoots ≤ out.length
    · rw [if_pos hcap, if_pos hcap]
      exact ⟨[], rfl, fun h => (by cases h)⟩
    rw [if_neg hcap, if_neg hcap]
    cases hrepo : isGitRepo fs dir with
    | true =>
      obtain ⟨next, hlevel, hnext⟩ := @ih (out ++ [.fromPath dir]) hread'
      refine ⟨next, by simpa using hlevel, fun h hdepth => ?_⟩
      rw [hnext (by simpa using h) hdepth]
      simp [below, hrepo]
    | false =>
      obtain ⟨next, hlevel, hnext⟩ := @ih out hread'
      simp only [Bool.false_eq_true, if_false]
      by_cases hdepth : config.maxDepth ≤ depth
      · rw [if_pos hdepth]
        exact ⟨next, hlevel, fun _ h => by omega⟩
      rw [if_neg hdepth]
      cases hdir : fs.readDir dir with
      | none =>
        -- a scan root can be read
        have hzero : depth ≠ 0 := fun h => by
          have := hread h dir List.mem_cons_self
          rw [hdir] at this
          cases this
        simp only [hzero, if_false]
        refine ⟨next, hlevel, fun h hdepth => ?_⟩
        rw [hnext h hdepth]
        simp [below, hrepo, hdir]
      | some names =>
        refine ⟨children fs dir names ++ next, by rw [hlevel]; rfl, fun h hdepth => ?_⟩
        rw [hnext h hdepth]
        simp [below, hrepo, hdir]

/-- The walk of one root is that of its directories in order. -/
theorem walkRoot_eq {fuel : ℕ} (hfuel : depth + fuel = config.maxDepth + 1)
    (hread : depth = 0 → ∀ dir ∈ dirs, (fs.readDir dir).isSome) :
    walkRoot fs config fuel depth dirs out =
      .ok (scan fs config.maxRoots (visitsFrom fs dirs fuel) out) := by
  induction fuel generalizing depth dirs out with
  | zero => rfl
  | succ fuel ih =>
    obtain ⟨next, hlevel, hnext⟩ := @walkLevel_eq fs config dirs depth out hread
    have hvisits : visitsFrom fs dirs (fuel + 1) =
        dirs ++ visitsFrom fs (dirs.flatMap (below fs)) fuel := by
      rw [visitsFrom, List.range_succ_eq_map, List.flatMap_cons, List.flatMap_map]
      rfl
    rw [walkRoot, hlevel, hvisits, scan_append]
    simp only [bind, Except.bind]
    cases htr : (scan fs config.maxRoots dirs out).2 with
    | true => simp [← htr]
    | false =>
      simp only [Bool.false_eq_true, if_false]
      rcases Nat.eq_zero_or_pos fuel with rfl | hpos
      · rfl
      · rw [hnext htr (by omega)]
        exact ih (by omega) (fun h => absurd h (Nat.succ_ne_zero _))

/-- A scan root that is there and can be read. -/
def IsScanRoot (fs : FileSystem) (root : PathBuf) : Prop :=
  fs.present root = true ∧ (fs.readDir root).isSome = true

theorem walkRoots_eq (hroots : ∀ root ∈ roots, IsScanRoot fs root) :
    walkRoots fs config roots out =
      .ok (scan fs config.maxRoots (visitsAll fs config roots) out) := by
  induction roots generalizing out with
  | nil => rfl
  | cons root roots ih =>
    have hroot := hroots root List.mem_cons_self
    have hrest : ∀ r ∈ roots, IsScanRoot fs r := fun r hr => hroots r (List.mem_cons_of_mem _ hr)
    have hwalk : walkRoot fs config (config.maxDepth + 1) 0 [root] out = _ :=
      walkRoot_eq (Nat.zero_add _) fun _ d hd => by
        rw [List.mem_singleton.mp hd]
        exact hroot.2
    rw [walkRoots, if_pos hroot.1, hwalk, visitsAll, List.flatMap_cons, scan_append, ← visitsAll]
    simp only [bind, Except.bind]
    cases htr : (scan fs config.maxRoots (visitsFrom fs [root] (config.maxDepth + 1)) out).2 with
    | true => simp [← htr]
    | false =>
      simp only [Bool.false_eq_true, if_false]
      exact ih hrest

/-- The repositories of a walk are the first ones, up to the cap. -/
theorem scan_fst (dirs : List PathBuf) (out : List DiscoveredRepo) : (scan fs cap dirs out).1 =
    out ++ ((dirs.filter (isGitRepo fs)).take (cap - out.length)).map DiscoveredRepo.fromPath := by
  induction dirs generalizing out with
  | nil => simp [scan]
  | cons dir dirs ih =>
    rw [scan]
    by_cases hcap : cap ≤ out.length
    · rw [if_pos hcap, Nat.sub_eq_zero_of_le hcap]
      simp
    rw [if_neg hcap]
    by_cases hrepo : isGitRepo fs dir = true
    · rw [if_pos hrepo, ih, List.filter_cons_of_pos hrepo]
      have hsub : cap - out.length = (cap - (out ++ [DiscoveredRepo.fromPath dir]).length) + 1 := by
        rw [List.length_append, List.length_singleton]
        omega
      rw [hsub, List.take_succ_cons, List.map_cons, List.append_assoc]
      rfl
    · rw [if_neg hrepo, ih, List.filter_cons_of_neg hrepo]

/-- A walk is truncated when a directory is left behind the cap. -/
theorem scan_snd_iff (dirs : List PathBuf) (out : List DiscoveredRepo) :
    (scan fs cap dirs out).2 = true ↔
      dirs ≠ [] ∧ cap ≤ out.length + (dirs.dropLast.filter (isGitRepo fs)).length := by
  induction dirs generalizing out with
  | nil => simp [scan]
  | cons dir dirs ih =>
    rw [scan]
    by_cases hcap : cap ≤ out.length
    · rw [if_pos hcap]
      exact ⟨fun _ => ⟨List.cons_ne_nil _ _, by omega⟩, fun _ => rfl⟩
    rw [if_neg hcap]
    cases dirs with
    | nil =>
      -- the last directory is looked at with room left
      have hlast : out.length < cap := by omega
      split_ifs <;> simp [scan, hlast]
    | cons next dirs =>
      rw [List.dropLast_cons_of_ne_nil (List.cons_ne_nil _ _)]
      by_cases hrepo : isGitRepo fs dir = true
      · rw [if_pos hrepo, ih, List.filter_cons_of_pos hrepo, List.length_append,
          List.length_singleton, List.length_cons]
        simp only [ne_eq, List.cons_ne_nil, not_false_eq_true, true_and]
        omega
      · rw [if_neg hrepo, ih, List.filter_cons_of_neg hrepo]
        simp

/-- **The outcome** of a discovery, from the order of the walk. -/
theorem discoverRepos_eq (hroots : ∀ root ∈ roots, IsScanRoot fs root) :
    discoverRepos fs config roots = .ok
      ⟨dedupSorted (fun r : DiscoveredRepo => r.path.components)
        ((((found fs config roots).take config.maxRoots).map DiscoveredRepo.fromPath).mergeSort
          fun a b => decide (a.path.text ≤ b.path.text)),
      (scan fs config.maxRoots (visitsAll fs config roots) []).2⟩ := by
  rw [discoverRepos, walkRoots_eq hroots, Except.map]
  simp only [scan_fst, List.nil_append, List.length_nil, Nat.sub_zero]
  rfl

/-! ### Exactness -/

/-- The outcome has all the repositories, or as many of them as the cap allows and says so. -/
structure Exact (fs : FileSystem) (config : DiscoveryConfig) (roots : List PathBuf)
    (outcome : DiscoveryOutcome) : Prop where
  /-- Only repositories that can be reached are in it. -/
  sound : ∀ repo ∈ outcome.repos, ∃ path, IsFound fs config roots path ∧
    repo = DiscoveredRepo.fromPath path
  sorted : outcome.repos.Pairwise fun a b => a.path.text ≤ b.path.text
  distinct : outcome.repos.Pairwise fun a b => ¬ a.path.same b.path
  complete : repoCount fs config roots ≤ config.maxRoots → outcome.truncated = false ∧
    ∀ path, IsFound fs config roots path → ∃ repo ∈ outcome.repos, repo.path.same path
  capped : config.maxRoots < repoCount fs config roots → outcome.truncated = true ∧
    outcome.repos.length = config.maxRoots

/-- There is room for all repositories, counted as often as the walk comes to them, before its
last directory, and no spelling of a repository sorts between two of another. -/
def HasRoom (fs : FileSystem) (config : DiscoveryConfig) (roots : List PathBuf) : Prop :=
  (visitsAll fs config roots ≠ [] →
    ((visitsAll fs config roots).dropLast.filter (isGitRepo fs)).length < config.maxRoots) ∧
  Clustered PathBuf.text PathBuf.components (IsFound fs config roots)

/-- The first repositories that the walk comes to, up to the cap, are different. -/
def FirstDiffer (fs : FileSystem) (config : DiscoveryConfig) (roots : List PathBuf) : Prop :=
  ((found fs config roots).take config.maxRoots).Pairwise fun a b => ¬ a.same b

section Outcome

variable {outcome : DiscoveryOutcome}

/-- The repositories of the outcome before the duplicates are merged. -/
def sortedRepos (fs : FileSystem) (config : DiscoveryConfig) (roots : List PathBuf) :
    List DiscoveredRepo :=
  (((found fs config roots).take config.maxRoots).map DiscoveredRepo.fromPath).mergeSort
    fun a b => decide (a.path.text ≤ b.path.text)

def pathKey (repo : DiscoveredRepo) : List PathComponent := repo.path.components

theorem sortedRepos_sorted : (sortedRepos fs config roots).Pairwise
    fun a b => a.path.text ≤ b.path.text := by
  refine (List.pairwise_mergeSort ?_ ?_ _).imp of_decide_eq_true
  · intro a b c hab hbc
    simp only [decide_eq_true_eq] at hab hbc ⊢
    exact le_trans hab hbc
  · intro a b
    simp only [Bool.or_eq_true, decide_eq_true_eq]
    exact le_total _ _

theorem sortedRepos_perm : (sortedRepos fs config roots).Perm
    (((found fs config roots).take config.maxRoots).map DiscoveredRepo.fromPath) :=
  List.mergeSort_perm _ _

theorem mem_sortedRepos_iff {repo : DiscoveredRepo} : repo ∈ sortedRepos fs config roots ↔
    ∃ path ∈ (found fs config roots).take config.maxRoots, DiscoveredRepo.fromPath path = repo := by
  rw [sortedRepos_perm.mem_iff, List.mem_map]

/-- The repositories of the outcome differ when those that were taken do. -/
theorem pairwise_sortedRepos_iff :
    (sortedRepos fs config roots).Pairwise (fun a b => ¬ a.path.same b.path) ↔
      FirstDiffer fs config roots := by
  rw [sortedRepos_perm.pairwise_iff fun h h' => h h'.symm, List.pairwise_map]
  rfl

/-- All were taken when there was room. -/
theorem take_found (h : (scan fs config.maxRoots (visitsAll fs config roots) []).2 = false) :
    (found fs config roots).take config.maxRoots = found fs config roots := by
  apply List.take_of_length_le
  have htrunc : ¬ (scan fs config.maxRoots (visitsAll fs config roots) []).2 = true := by
    rw [h]
    exact Bool.false_ne_true
  rw [scan_snd_iff] at htrunc
  rw [found]
  rcases List.eq_nil_or_concat (visitsAll fs config roots) with hnil | ⟨dirs, dir, hdirs⟩
  · simp [hnil]
  · rw [List.concat_eq_append] at hdirs
    rw [hdirs] at htrunc ⊢
    rw [List.dropLast_concat, List.length_nil, Nat.zero_add, not_and] at htrunc
    have hroom := htrunc (by simp)
    have hone : ([dir].filter (isGitRepo fs)).length ≤ 1 := List.length_filter_le _ _
    rw [List.filter_append, List.length_append]
    omega

theorem repoCount_le : repoCount fs config roots ≤ (found fs config roots).length :=
  (List.dedup_sublist _).length_le.trans_eq (List.length_map _)

/-- With more repositories than the cap the walk is truncated. -/
theorem truncated_of_lt (h : config.maxRoots < repoCount fs config roots) :
    (scan fs config.maxRoots (visitsAll fs config roots) []).2 = true := by
  by_contra htrunc
  have hall := congrArg List.length (take_found (Bool.eq_false_iff.mpr htrunc))
  rw [List.length_take] at hall
  have hle := @repoCount_le fs config roots
  omega

theorem clustered_sortedRepos_iff
    (h : (scan fs config.maxRoots (visitsAll fs config roots) []).2 = false) :
    Clustered (fun r : DiscoveredRepo => r.path.text) pathKey (· ∈ sortedRepos fs config roots) ↔
      Clustered PathBuf.text PathBuf.components (IsFound fs config roots) := by
  have hmem : ∀ path, IsFound fs config roots path →
      DiscoveredRepo.fromPath path ∈ sortedRepos fs config roots := fun path hpath => by
    rw [mem_sortedRepos_iff, take_found h]
    exact ⟨path, mem_found_iff.mpr hpath, rfl⟩
  have hfound : ∀ repo ∈ sortedRepos fs config roots, IsFound fs config roots repo.path := by
    intro repo hrepo
    rw [mem_sortedRepos_iff, take_found h] at hrepo
    obtain ⟨path, hpath, rfl⟩ := hrepo
    exact mem_found_iff.mp hpath
  constructor
  · exact fun hc a b c ha hb hc' => hc _ _ _ (hmem a ha) (hmem b hb) (hmem c hc')
  · exact fun hc a b c ha hb hc' => hc _ _ _ (hfound a ha) (hfound b hb) (hfound c hc')

theorem room_iff : (scan fs config.maxRoots (visitsAll fs config roots) []).2 = false ↔
    (visitsAll fs config roots ≠ [] →
      ((visitsAll fs config roots).dropLast.filter (isGitRepo fs)).length < config.maxRoots) := by
  rw [← Bool.not_eq_true, scan_snd_iff, List.length_nil, Nat.zero_add, not_and, not_le]

/-- Equal texts are equal paths. -/
theorem pathKey_of_text (a b : DiscoveredRepo) (h : a.path.text = b.path.text) :
    pathKey a = pathKey b := by
  have hpath : a.path = b.path := by
    cases ha : a.path
    cases hb : b.path
    rw [ha, hb] at h
    exact congrArg PathBuf.mk h
  rw [pathKey, hpath, pathKey]

/-- **A discovery is exact** when there is room for every repository, or when the first ones
up to the cap differ. -/
theorem discovery_exact_iff (hroots : ∀ root ∈ roots, IsScanRoot fs root) :
    (∃ outcome, discoverRepos fs config roots = .ok outcome ∧ Exact fs config roots outcome) ↔
      (repoCount fs config roots ≤ config.maxRoots → HasRoom fs config roots) ∧
      (config.maxRoots < repoCount fs config roots → FirstDiffer fs config roots) := by
  have hsub := dedupSorted_sublist pathKey (sortedRepos fs config roots)
  have hdiscover := @discoverRepos_eq fs config roots hroots
  constructor
  · rintro ⟨outcome, hok, hexact⟩
    rw [hdiscover] at hok
    obtain rfl := Except.ok.inj hok
    have hdistinct : (dedupSorted pathKey (sortedRepos fs config roots)).Pairwise
      fun a b => pathKey a ≠ pathKey b := hexact.distinct
    constructor
    · intro hle
      have htrunc := (hexact.complete hle).1
      refine ⟨room_iff.mp htrunc, (clustered_sortedRepos_iff htrunc).mp ?_⟩
      exact (pairwise_dedupSorted_iff pathKey_of_text sortedRepos_sorted).mp hdistinct
    · intro hlt
      -- nothing was merged, as the cap is reached
      have hlength : (sortedRepos fs config roots).length ≤ config.maxRoots := by
        rw [sortedRepos_perm.length_eq, List.length_map, List.length_take]
        omega
      have heq : dedupSorted pathKey (sortedRepos fs config roots) = sortedRepos fs config roots :=
        hsub.eq_of_length_le (hlength.trans_eq (hexact.capped hlt).2.symm)
      rw [heq] at hdistinct
      exact pairwise_sortedRepos_iff.mp hdistinct
  · rintro ⟨hroom, hfirst⟩
    refine ⟨_, hdiscover, ?_⟩
    have hsound : ∀ repo ∈ dedupSorted pathKey (sortedRepos fs config roots), ∃ path,
        IsFound fs config roots path ∧ repo = DiscoveredRepo.fromPath path := by
      intro repo hrepo
      obtain ⟨path, hpath, rfl⟩ := mem_sortedRepos_iff.mp (hsub.subset hrepo)
      exact ⟨path, mem_found_iff.mp ((List.take_sublist _ _).subset hpath), rfl⟩
    have hsorted := List.Pairwise.sublist hsub (@sortedRepos_sorted fs config roots)
    rcases le_or_gt (repoCount fs config roots) config.maxRoots with hle | hlt
    · obtain ⟨hspace, hclustered⟩ := hroom hle
      have htrunc := room_iff.mpr hspace
      have hdistinct := (pairwise_dedupSorted_iff pathKey_of_text sortedRepos_sorted).mpr
        ((clustered_sortedRepos_iff htrunc).mpr hclustered)
      refine ⟨hsound, hsorted, hdistinct, fun _ => ⟨htrunc, fun path hpath => ?_⟩,
        fun h => absurd hle (by omega)⟩
      have hmem : DiscoveredRepo.fromPath path ∈ sortedRepos fs config roots := by
        rw [mem_sortedRepos_iff, take_found htrunc]
        exact ⟨path, mem_found_iff.mpr hpath, rfl⟩
      obtain ⟨repo, hrepo, hkey⟩ := @exists_mem_dedupSorted _ _ _ pathKey _ _ hmem
      exact ⟨repo, hrepo, hkey⟩
    · have hdistinct := pairwise_sortedRepos_iff.mpr (hfirst hlt)
      have heq : dedupSorted pathKey (sortedRepos fs config roots) = sortedRepos fs config roots :=
        dedupSorted_of_pairwise hdistinct
      refine ⟨hsound, hsorted, heq ▸ hdistinct, fun h => absurd hlt (by omega),
        fun _ => ⟨truncated_of_lt hlt, ?_⟩⟩
      have hle := @repoCount_le fs config roots
      calc (dedupSorted pathKey (sortedRepos fs config roots)).length
          = (sortedRepos fs config roots).length := congrArg List.length heq
        _ = min config.maxRoots (found fs config roots).length := by
          rw [sortedRepos_perm.length_eq, List.length_map, List.length_take]
        _ = config.maxRoots := by omega

end Outcome

/-! ### Two repositories -/

def pathX : PathBuf := ⟨"/x".toList⟩

def pathY : PathBuf := ⟨"/y".toList⟩

/-- The disk has the repositories "/x" and "/y". -/
def twoRepos : FileSystem where
  present := fun path => decide (path ∈ [pathX, pathY])
  kind := fun path =>
    if path.text ∈ ["/x/.git".toList, "/y/.git".toList] then some .dir
    else if path.text ∈ ["/x/.git/HEAD".toList, "/y/.git/HEAD".toList] then some .file
    else none
  readDir := fun _ => some []
  names := fun _ _ h name hname => by
    rw [← Option.some.inj h] at hname
    exact absurd hname List.not_mem_nil

theorem isScanRoot_twoRepos {roots : List PathBuf} (h : roots ⊆ [pathX, pathY]) :
    ∀ root ∈ roots, IsScanRoot twoRepos root := fun _ hroot =>
  ⟨decide_eq_true (h hroot), rfl⟩

/-- Both are found where the cap is two. -/
theorem both_repos_found : ∃ outcome,
    discoverRepos twoRepos ⟨6, 2⟩ [pathX, pathY] = .ok outcome ∧
      Exact twoRepos ⟨6, 2⟩ [pathX, pathY] outcome := by
  apply (discovery_exact_iff (isScanRoot_twoRepos (List.Subset.refl _))).mpr
  refine ⟨fun _ => ⟨by decide +kernel, fun a b c ha hb hc => ?_⟩,
    fun h => absurd h (by decide +kernel)⟩
  rw [← mem_found_iff] at ha hb hc
  have hall : ∀ a ∈ found twoRepos ⟨6, 2⟩ [pathX, pathY],
      ∀ b ∈ found twoRepos ⟨6, 2⟩ [pathX, pathY],
      ∀ c ∈ found twoRepos ⟨6, 2⟩ [pathX, pathY], a.text ≤ b.text → b.text ≤ c.text →
        a.components = c.components → b.components = a.components := by decide +kernel
  exact hall a ha b hb c hc

/-- With the first scan root given twice, its repository takes both places. -/
theorem repeated_root_hides_repo :
    repoCount twoRepos ⟨6, 2⟩ [pathX, pathX, pathY] = 2 ∧
      discoverRepos twoRepos ⟨6, 2⟩ [pathX, pathX, pathY] =
        .ok ⟨[DiscoveredRepo.fromPath pathX], true⟩ ∧
      ¬ ∃ outcome, discoverRepos twoRepos ⟨6, 2⟩ [pathX, pathX, pathY] = .ok outcome ∧
        Exact twoRepos ⟨6, 2⟩ [pathX, pathX, pathY] outcome := by
  have hroots : ∀ root ∈ [pathX, pathX, pathY], IsScanRoot twoRepos root :=
    isScanRoot_twoRepos (by decide +kernel)
  have hcount : repoCount twoRepos ⟨6, 2⟩ [pathX, pathX, pathY] = 2 := by decide +kernel
  have hdiscover : discoverRepos twoRepos ⟨6, 2⟩ [pathX, pathX, pathY] =
      .ok ⟨[DiscoveredRepo.fromPath pathX], true⟩ := by
    rw [discoverRepos_eq hroots, List.mergeSort_of_pairwise (by decide +kernel)]
    decide +kernel
  refine ⟨hcount, hdiscover, ?_⟩
  rintro ⟨outcome, hok, hexact⟩
  rw [hdiscover] at hok
  obtain rfl := Except.ok.inj hok
  have htrunc := (hexact.complete (by rw [hcount])).1
  cases htrunc

end LocalGit
end Dayseam
