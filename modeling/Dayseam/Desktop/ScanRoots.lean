import Dayseam.Desktop.Store
import Dayseam.Lib.Machine
import Mathlib

/-!
# Scan roots that do not overlap

The commands that add or update a LocalGit source look for an overlap of its scan roots
with those of the other sources, and write the source in a later step.  Another command
can write in between.

## Main definitions

* `ScanRoots.ensureDisjoint` — the check.
* `ScanRoots.machine` — any number of commands, interleaved in any order.
* `ScanRoots.NoLateOverlap` — a write that overlaps with nothing written since its check.

## Main results

* `ScanRoots.ensureDisjoint_eq_ok_iff` — what the check says.
* `ScanRoots.disjoint_iff` — **when the scan roots stay disjoint.**
* `ScanRoots.overlapping_adds` — one root added twice at once.
-/

namespace Dayseam
namespace ScanRoots

/-! ### The check -/

/-- What the check takes from the standard library: where a path leads to, or the path
itself where the file system cannot tell, and the `Debug` text of a path. -/
structure Paths where
  canonical : PathBuf → PathBuf
  debug : PathBuf → Text

variable (paths : Paths)

/-- The two lists of scan roots do not overlap. -/
def Apart (roots roots' : List PathBuf) : Prop :=
  ∀ r ∈ roots, ∀ r' ∈ roots', ¬(paths.canonical r).overlaps (paths.canonical r')

instance (roots roots' : List PathBuf) : Decidable (Apart paths roots roots') :=
  inferInstanceAs (Decidable (∀ r ∈ roots, ∀ r' ∈ roots', _))

def IPC_SOURCE_NOT_FOUND : Text := "ipc.source.not_found".toList

def IPC_SOURCE_CONFIG_KIND_MISMATCH : Text := "ipc.source.config_kind_mismatch".toList

def IPC_SOURCE_SCAN_ROOT_OVERLAP : Text := "ipc.source.scan_root_overlap".toList

/-- The first overlap of a proposed root: the root, the other source and its root. -/
def firstOverlap (self : Option Uuid) (proposed : List PathBuf) (sources : List Source) :
    Option (PathBuf × Source × PathBuf) :=
  (sources.filter fun existing => decide (existing.kind = .localGit ∧ some existing.id ≠ self)).findSome?
    fun existing => existing.scanRoots.findSome? fun existingRoot =>
      (proposed.find? fun declared => decide
        ((paths.canonical declared).overlaps (paths.canonical existingRoot))).map
          fun declared => (declared, existing, existingRoot)

/-- `ensure_local_git_scan_roots_are_disjoint`. -/
def ensureDisjoint (self : Option Uuid) (proposed : List PathBuf) (sources : List Source) :
    Except DayseamError Unit :=
  match firstOverlap paths self proposed sources with
  | none => .ok ()
  | some (declared, existing, existingRoot) => .error (.invalidConfig IPC_SOURCE_SCAN_ROOT_OVERLAP
      ("Scan root ".toList ++ paths.debug declared ++ " overlaps with source \"".toList ++
        existing.label ++ "\" (scan root ".toList ++ paths.debug existingRoot ++
        ("). Two local-git sources whose scan roots contain one another would ping-pong " ++
          "ownership of every shared repo on each rescan. Remove the other source, or narrow " ++
          "this scan root so no discovered repo would be tracked twice.").toList))

variable {paths} {self : Option Uuid} {proposed : List PathBuf} {sources : List Source}

theorem apart_symm {roots roots' : List PathBuf} (h : Apart paths roots roots') :
    Apart paths roots' roots :=
  fun r' hr' r hr hover => h r hr r' hr' (PathBuf.overlaps_symm hover)

/-- **What the check says**: the proposed roots are apart from those of every other
source. -/
theorem ensureDisjoint_eq_ok_iff : ensureDisjoint paths self proposed sources = .ok () ↔
    ∀ existing ∈ sources, some existing.id ≠ self → Apart paths proposed existing.scanRoots := by
  have hnone : ensureDisjoint paths self proposed sources = .ok () ↔
      firstOverlap paths self proposed sources = none := by
    unfold ensureDisjoint
    cases firstOverlap paths self proposed sources <;> simp
  rw [hnone, firstOverlap, List.findSome?_eq_none_iff]
  constructor
  · intro h existing hmem hself declared hdeclared root hroot
    by_cases hkind : existing.kind = .localGit
    · have hroots := List.findSome?_eq_none_iff.mp
        (h existing (List.mem_filter.mpr ⟨hmem, decide_eq_true ⟨hkind, hself⟩⟩)) root hroot
      rw [Option.map_eq_none_iff, List.find?_eq_none] at hroots
      simpa using hroots declared hdeclared
    · rw [Source.scanRoots_of_kind_ne hkind] at hroot
      exact absurd hroot List.not_mem_nil
  · intro h existing hmem
    obtain ⟨hmem, hother⟩ := List.mem_filter.mp hmem
    obtain ⟨-, hself⟩ := of_decide_eq_true hother
    rw [List.findSome?_eq_none_iff]
    intro root hroot
    rw [Option.map_eq_none_iff, List.find?_eq_none]
    intro declared hdeclared
    simpa using h existing hmem hself declared hdeclared root hroot

/-! ### The commands -/

/-- What the check has cleared. -/
def Cleared (paths : Paths) (self : Option Uuid) (proposed : List PathBuf)
    (seen : List Source) : Prop :=
  ensureDisjoint paths self proposed seen = .ok ()

/-- What a command does next; one whose check has passed knows the sources that the
check has seen. -/
inductive Phase (paths : Paths)
  /-- not called -/
  | idle
  /-- `sources_add`: insert the source -/
  | inserting (source : Source) (seen : List Source)
      (cleared : Cleared paths none source.scanRoots seen)
  /-- `sources_update`: check a configuration of the kind of the source -/
  | checking (id : Uuid) (config : SourceConfig)
  /-- `sources_update`: write the configuration -/
  | writing (id : Uuid) (config : SourceConfig) (seen : List Source)
      (cleared : Cleared paths (some id) config.scanRoots seen)
  /-- returned -/
  | done (result : Except DayseamError Unit)

structure State (C : Type) (paths : Paths) where
  store : Store
  phase : C → Phase paths

inductive Action (C : Type)
  /-- `sources_add` is called, and checks; the id is new -/
  | add (c : C) (source : Source)
  /-- `sources_update` is called, and reads the source -/
  | update (c : C) (id : Uuid) (config : SourceConfig)
  /-- the next step of a command -/
  | advance (c : C)
  /-- `sources_delete`, or an addition that is rolled back -/
  | delete (id : Uuid)

/-! ### Disjoint scan roots -/

section

variable {C : Type}

/-- No scan root of a source overlaps with one of another source. -/
def Disjoint (s : State C paths) : Prop :=
  ∀ a ∈ s.store.sources, ∀ b ∈ s.store.sources, a.id ≠ b.id → Apart paths a.scanRoots b.scanRoots

/-- A command writes roots that overlap with nothing that another source was given since
the check of the command. -/
def NoLateOverlap (s : State C paths) : Action C → Prop
  | .advance c => match s.phase c with
    | .inserting source seen _ => (∀ old ∈ s.store.sources, old.id ≠ source.id) →
      ∀ other ∈ s.store.sources, other ∉ seen → Apart paths source.scanRoots other.scanRoots
    | .writing id config seen _ =>
      (∃ source ∈ s.store.sources, source.id = id ∧ config.kind = source.kind) →
        ∀ other ∈ s.store.sources, other.id ≠ id → other ∉ seen →
          Apart paths config.scanRoots other.scanRoots
    | _ => True
  | _ => True

variable {s : State C paths} {source : Source} {seen : List Source} {id : Uuid}
  {config : SourceConfig}

/-- Cleared roots are apart from the source where the check has seen it. -/
theorem apart_of_cleared {other : Source} (hcleared : Cleared paths self proposed seen)
    (hself : some other.id ≠ self) (hlate : other ∉ seen → Apart paths proposed other.scanRoots) :
    Apart paths proposed other.scanRoots := by
  by_cases hseen : other ∈ seen
  · exact ensureDisjoint_eq_ok_iff.mp hcleared other hseen hself
  · exact hlate hseen

theorem disjoint_of_sublist {t : State C paths} (h : Disjoint s)
    (hsub : ∀ source ∈ t.store.sources, source ∈ s.store.sources) : Disjoint t :=
  fun a ha b hb => h a (hsub a ha) b (hsub b hb)

/-- **An insertion** keeps the roots disjoint just when nothing late overlaps. -/
theorem disjoint_addSource_iff {phase : C → Phase paths} (h : Disjoint s)
    (hcleared : Cleared paths none source.scanRoots seen) :
    Disjoint (⟨s.store.call (.addSource source), phase⟩ : State C paths) ↔
      ((∀ old ∈ s.store.sources, old.id ≠ source.id) → ∀ other ∈ s.store.sources, other ∉ seen →
        Apart paths source.scanRoots other.scanRoots) := by
  by_cases hnew : ∀ old ∈ s.store.sources, old.id ≠ source.id
  swap
  · refine iff_of_true ?_ fun hall => absurd hall hnew
    rw [Store.call, dif_neg hnew]
    exact h
  rw [Store.call, dif_pos hnew, imp_iff_right hnew]
  constructor
  · intro hdisjoint other hother _
    exact hdisjoint source (List.mem_append_right _ (List.mem_singleton_self _)) other
      (List.mem_append_left _ hother) (hnew other hother).symm
  · intro hlate a ha b hb hne
    have hsource : ∀ other ∈ s.store.sources, Apart paths source.scanRoots other.scanRoots :=
      fun other hother => apart_of_cleared hcleared nofun (hlate other hother)
    rcases List.mem_append.mp ha with ha | ha <;> rcases List.mem_append.mp hb with hb | hb
    · exact h a ha b hb hne
    · rw [List.mem_singleton.mp hb]
      exact apart_symm (hsource a ha)
    · rw [List.mem_singleton.mp ha]
      exact hsource b hb
    · rw [List.mem_singleton.mp ha, List.mem_singleton.mp hb] at hne
      exact absurd rfl hne

/-- **A new configuration** keeps the roots disjoint just when nothing late overlaps. -/
theorem disjoint_updateConfig_iff {phase : C → Phase paths} (h : Disjoint s)
    (hcleared : Cleared paths (some id) config.scanRoots seen) :
    Disjoint (⟨s.store.call (.updateConfig id config), phase⟩ : State C paths) ↔
      ((∃ source ∈ s.store.sources, source.id = id ∧ config.kind = source.kind) →
        ∀ other ∈ s.store.sources, other.id ≠ id → other ∉ seen →
          Apart paths config.scanRoots other.scanRoots) := by
  have hother : ∀ other : Source, other.id ≠ id → other.updateConfig id config = other :=
    fun other hne => dif_neg fun hid => hne hid.1
  constructor
  · rintro hdisjoint ⟨source, hsource, rfl, hkind⟩ other hmem hne _
    have hnew : (source.updateConfig source.id config).scanRoots = config.scanRoots := by
      rw [Source.updateConfig, dif_pos ⟨rfl, hkind⟩, Source.scanRoots]
    have hapart := hdisjoint _ (List.mem_map_of_mem hsource) _ (List.mem_map_of_mem hmem)
      (by simpa using hne.symm)
    rwa [hnew, hother other hne] at hapart
  · intro hlate a ha b hb hne
    obtain ⟨a, hmema, rfl⟩ := List.mem_map.mp ha
    obtain ⟨b, hmemb, rfl⟩ := List.mem_map.mp hb
    rw [Source.id_updateConfig, Source.id_updateConfig] at hne
    have hnew : ∀ source ∈ s.store.sources, source.id = id → config.kind = source.kind →
        ∀ other ∈ s.store.sources, other.id ≠ id →
          Apart paths (source.updateConfig id config).scanRoots other.scanRoots := by
      intro source hsource hid hkind other hmem hne'
      rw [Source.updateConfig, dif_pos ⟨hid, hkind⟩, Source.scanRoots]
      refine apart_of_cleared hcleared (fun heq => hne' (Option.some.inj heq)) ?_
      exact hlate ⟨source, hsource, hid, hkind⟩ other hmem hne'
    have hsame : ∀ source : Source, ¬(source.id = id ∧ config.kind = source.kind) →
        source.updateConfig id config = source := fun source hno => dif_neg hno
    by_cases hida : a.id = id ∧ config.kind = a.kind
    · have hidb : b.id ≠ id := fun hid => hne (hida.1.trans hid.symm)
      rw [hother b hidb]
      exact hnew a hmema hida.1 hida.2 b hmemb hidb
    · by_cases hidb : b.id = id ∧ config.kind = b.kind
      · have hida' : a.id ≠ id := fun hid => hne (hid.trans hidb.1.symm)
        rw [hother a hida']
        exact apart_symm (hnew b hmemb hidb.1 hidb.2 a hmema hida')
      · rw [hsame a hida, hsame b hidb]
        exact h a hmema b hmemb hne

/-! ### Steps -/

section Machine

variable [DecidableEq C]

def State.goto (s : State C paths) (c : C) (phase : Phase paths) : State C paths :=
  { s with phase := Function.update s.phase c phase }

/-- The check of `sources_add`. -/
def checkAdd (paths : Paths) (source : Source) (sources : List Source) : Phase paths :=
  match h : ensureDisjoint paths none source.scanRoots sources with
  | .ok () => .inserting source sources h
  | .error err => .done (.error err)

/-- The check of `sources_update`. -/
def checkUpdate (paths : Paths) (id : Uuid) (config : SourceConfig) (sources : List Source) :
    Phase paths :=
  match h : ensureDisjoint paths (some id) config.scanRoots sources with
  | .ok () => .writing id config sources h
  | .error err => .done (.error err)

/-- The start of `sources_update`. -/
def fetch (paths : Paths) (id : Uuid) (config : SourceConfig) (sources : List Source) :
    Phase paths :=
  match sources.find? (·.id = id) with
  | none => .done (.error (.invalidConfig IPC_SOURCE_NOT_FOUND
      ("no source with id ".toList ++ id.display)))
  | some existing =>
    if config.kind ≠ existing.kind then
      .done (.error (.invalidConfig IPC_SOURCE_CONFIG_KIND_MISMATCH
        ("patch kind ".toList ++ Orchestrator.SourceKind.debug config.kind ++
          " does not match persisted kind ".toList ++
            Orchestrator.SourceKind.debug existing.kind)))
    else .checking id config

def step (s : State C paths) : Action C → State C paths
  | .add c source => match s.phase c with
    | .idle => s.goto c (checkAdd paths source s.store.sources)
    | _ => s
  | .update c id config => match s.phase c with
    | .idle => s.goto c (fetch paths id config s.store.sources)
    | _ => s
  | .advance c => match s.phase c with
    | .inserting source _ _ =>
      State.goto { s with store := s.store.call (.addSource source) } c (.done (.ok ()))
    | .checking id config => s.goto c (checkUpdate paths id config s.store.sources)
    | .writing id config _ _ =>
      State.goto { s with store := s.store.call (.updateConfig id config) } c (.done (.ok ()))
    | _ => s
  | .delete id => { s with store := s.store.call (.deleteSource id) }

/-- Any number of commands, from an empty store. -/
def machine (C : Type) [DecidableEq C] (paths : Paths) : Machine (State C paths) (Action C) where
  init := ⟨Store.empty, fun _ => .idle⟩
  step := fun s a => some (step s a)

/-- What one step does to disjoint roots. -/
theorem disjoint_step_iff (h : Disjoint s) (a : Action C) :
    Disjoint (step s a) ↔ NoLateOverlap s a := by
  cases a with
  | add c source =>
    refine iff_of_true ?_ trivial
    unfold step
    dsimp only
    split <;> exact h
  | update c id config =>
    refine iff_of_true ?_ trivial
    unfold step
    dsimp only
    split <;> exact h
  | advance c =>
    unfold step NoLateOverlap
    dsimp only
    cases s.phase c with
    | inserting source seen cleared => exact disjoint_addSource_iff h cleared
    | writing id config seen cleared => exact disjoint_updateConfig_iff h cleared
    | idle => exact iff_of_true h trivial
    | checking id config => exact iff_of_true h trivial
    | done result => exact iff_of_true h trivial
  | delete id =>
    exact iff_of_true (disjoint_of_sublist h fun source hsource => (List.mem_filter.mp hsource).1)
      trivial

/-- **When the scan roots stay disjoint**: throughout a run just when no command writes
roots that overlap with what another source was given since the check of the command. -/
theorem disjoint_iff (C : Type) [DecidableEq C] (paths : Paths) (actions : List (Action C)) :
    (machine C paths).Throughout Disjoint (machine C paths).init actions ↔
      (machine C paths).Allowed NoLateOverlap (machine C paths).init actions := by
  refine Machine.throughout_iff_allowed (fun s a => ⟨_, rfl⟩) ?_ ?_
  · intro s a s' hs hstep
    cases hstep
    exact disjoint_step_iff hs a
  · intro a ha
    exact absurd ha List.not_mem_nil

end Machine

end

/-! ### Two additions at once -/

/-- Paths that lead where they say. -/
def plainPaths : Paths := ⟨fun path => path, fun path => '"' :: path.text ++ ['"']⟩

def workConfig : SourceConfig := .localGit [⟨"/w".toList⟩]

def workSource (id : Uuid) : Source := ⟨id, .localGit, "work".toList, workConfig, none, rfl⟩

/-- Both additions check before either inserts. -/
def twoAdds : List (Action Bool) :=
  [.add false (workSource 1), .add true (workSource 2), .advance false, .advance true]

/-- **One root added twice at once** belongs to two sources. -/
theorem overlapping_adds : ¬∀ (C : Type) (_ : DecidableEq C) (paths : Paths)
    (actions : List (Action C)),
    (machine C paths).Throughout Disjoint (machine C paths).init actions := by
  intro h
  have hrun : ((machine Bool plainPaths).exec (machine Bool plainPaths).init twoAdds).any
      (fun s => decide (s.store.sources = [workSource 1, workSource 2])) = true := by
    decide +kernel
  obtain ⟨s, hs, hlast⟩ := (Option.any_eq_true ..).mp hrun
  have hsources := of_decide_eq_true hlast
  have hdisjoint := (h Bool inferInstance plainPaths twoAdds).last hs
  have hapart := hdisjoint (workSource 1) (by simp [hsources]) (workSource 2) (by simp [hsources])
    (by decide)
  exact absurd hapart (by decide)

end ScanRoots
end Dayseam
