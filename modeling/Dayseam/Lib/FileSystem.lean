import Mathlib

/-!
# Files at places

A file system maps places to nodes.  A file has an identity of its own, which a rename
carries to another place: a file that is replaced differs from the one before it, whatever
both contain.

## Main definitions

* `File`, `Node`, `FileSystem` — the file system; every identity in use is an old one.
* `create`, `modify`, `remove`, `rename` — the operations.
* `AgreesOff` — two file systems that differ at some places only.

## Main results

* `rename_node_dst`, `modify_node_self` — what an operation leaves at its place.
* `AgreesOff.trans`, `agreesOff_modify` — what a sequence of operations leaves alone.
-/

namespace FileSystems

variable {L C M : Type*}

/-- A file, with its identity. -/
structure File (C M : Type*) where
  inode : ℕ
  content : C
  mode : M
  deriving DecidableEq

inductive Node (C M : Type*)
  | file (f : File C M)
  | symlink
  /-- A directory, a pipe or a socket. -/
  | special
  deriving DecidableEq

structure FileSystem (L C M : Type*) where
  node : L → Option (Node C M)
  /-- The next identity. -/
  next : ℕ
  old : ∀ l f, node l = some (.file f) → f.inode < next

namespace FileSystem

/-- The two agree at every place outside `touched`. -/
def AgreesOff (touched : L → Prop) (fs fs' : FileSystem L C M) : Prop :=
  ∀ k, ¬ touched k → fs'.node k = fs.node k

section

variable {fs fs₁ fs₂ : FileSystem L C M} {touched : L → Prop}

theorem AgreesOff.refl : AgreesOff touched fs fs := fun _ _ => rfl

theorem AgreesOff.trans (h : AgreesOff touched fs fs₁) (h' : AgreesOff touched fs₁ fs₂) :
    AgreesOff touched fs fs₂ := fun k hk => (h' k hk).trans (h k hk)

end

variable [DecidableEq L] (fs : FileSystem L C M) {l k : L}

/-- Put a node at a place. -/
def put (l : L) (n : Option (Node C M)) (next : ℕ) (hnext : fs.next ≤ next)
    (hn : ∀ f, n = some (.file f) → f.inode < next) : FileSystem L C M where
  node := Function.update fs.node l n
  next := next
  old k f h := by
    by_cases hk : k = l
    · subst hk
      rw [Function.update_self] at h
      exact hn f h
    · rw [Function.update_of_ne hk] at h
      exact Nat.lt_of_lt_of_le (fs.old k f h) hnext

/-- A new file at a place. -/
def create (l : L) (c : C) (m : M) : FileSystem L C M :=
  fs.put l (some (.file ⟨fs.next, c, m⟩)) (fs.next + 1) (Nat.le_succ _) (by
    rintro f h
    cases h
    exact Nat.lt_succ_self _)

/-- A change of the file at a place that keeps its identity. -/
def modify (l : L) (g : C → M → C × M) : FileSystem L C M :=
  match h : fs.node l with
  | some (.file f) =>
    fs.put l (some (.file ⟨f.inode, (g f.content f.mode).1, (g f.content f.mode).2⟩)) fs.next
      (Nat.le_refl _) (by
        rintro f' h'
        cases h'
        exact fs.old l f h)
  | _ => fs

def remove (l : L) : FileSystem L C M := fs.put l none fs.next (Nat.le_refl _) (by simp)

/-- The node at `src` replaces the one at `dst`. -/
def rename (src dst : L) : FileSystem L C M :=
  (fs.put dst (fs.node src) fs.next (Nat.le_refl _) fun f h => fs.old src f h).remove src

@[simp] theorem create_node_self (c : C) (m : M) :
    (fs.create l c m).node l = some (.file ⟨fs.next, c, m⟩) := Function.update_self ..

@[simp] theorem create_next (c : C) (m : M) : (fs.create l c m).next = fs.next + 1 := rfl

@[simp] theorem remove_next : (fs.remove l).next = fs.next := rfl

@[simp] theorem rename_next : (fs.rename l k).next = fs.next := rfl

@[simp] theorem modify_next (g : C → M → C × M) : (fs.modify l g).next = fs.next := by
  unfold modify
  split <;> rfl

theorem modify_node_self {f : File C M} (h : fs.node l = some (.file f)) (g : C → M → C × M) :
    (fs.modify l g).node l
      = some (.file ⟨f.inode, (g f.content f.mode).1, (g f.content f.mode).2⟩) := by
  unfold modify
  split
  · next f' h' =>
    obtain rfl : f = f' := by simpa using h.symm.trans h'
    exact Function.update_self ..
  · next hno => exact absurd h (hno f)

theorem rename_node_dst (h : k ≠ l) : (fs.rename l k).node k = fs.node l := by
  unfold rename remove
  exact (Function.update_of_ne h _ _).trans (Function.update_self ..)

theorem rename_node_of_ne {i : L} (hl : i ≠ l) (hk : i ≠ k) :
    (fs.rename l k).node i = fs.node i := by
  unfold rename remove
  exact (Function.update_of_ne hl _ _).trans (Function.update_of_ne hk _ _)

/-! ### What an operation leaves alone -/

variable {fs} {touched : L → Prop}

theorem agreesOff_put {n : Option (Node C M)} {next : ℕ} {hnext : fs.next ≤ next}
    {hn : ∀ f, n = some (.file f) → f.inode < next} (hl : touched l) :
    AgreesOff touched fs (fs.put l n next hnext hn) := fun k hk =>
  Function.update_of_ne (by rintro rfl; exact hk hl) _ _

theorem agreesOff_create (hl : touched l) (c : C) (m : M) :
    AgreesOff touched fs (fs.create l c m) := agreesOff_put hl

theorem agreesOff_modify (hl : touched l) (g : C → M → C × M) :
    AgreesOff touched fs (fs.modify l g) := by
  unfold modify
  split
  · exact agreesOff_put hl
  · exact .refl

theorem agreesOff_remove (hl : touched l) : AgreesOff touched fs (fs.remove l) := agreesOff_put hl

end FileSystem
end FileSystems
