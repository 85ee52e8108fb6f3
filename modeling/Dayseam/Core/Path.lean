import Dayseam.Core.Artifact
import Mathlib

/-!
# Paths of the file system

Paths are compared and cut component by component.

## Main definitions

* `PathBuf.same`, `PathBuf.startsWith` — equality and the prefix order of paths.
* `PathBuf.join` — a name under a directory.

## Main results

* `PathBuf.startsWith_join` — a joined path lies under its directory.
-/

namespace Dayseam
namespace PathBuf

/-- `==` of two paths. -/
def same (a b : PathBuf) : Prop := a.components = b.components

instance (a b : PathBuf) : Decidable (a.same b) :=
  inferInstanceAs (Decidable (a.components = b.components))

/-- `Path::starts_with`. -/
def startsWith (path root : PathBuf) : Prop := root.components <+: path.components

instance (path root : PathBuf) : Decidable (path.startsWith root) :=
  inferInstanceAs (Decidable (root.components <+: path.components))

variable {a b path root : PathBuf}

theorem startsWith_refl (path : PathBuf) : path.startsWith path := List.prefix_refl _

theorem startsWith_trans (h : a.startsWith b) (hb : b.startsWith root) : a.startsWith root :=
  List.IsPrefix.trans hb h

theorem startsWith_of_same (h : a.same b) : a.startsWith b := by
  rw [startsWith, show a.components = b.components from h]

/-- Two directories above one path lie on one line. -/
theorem startsWith_or (ha : path.startsWith a) (hb : path.startsWith b) :
    a.startsWith b ∨ b.startsWith a := (List.prefix_or_prefix_of_prefix ha hb).symm

/-- `paths_overlap`: the paths are one, or one lies in the other. -/
def overlaps (a b : PathBuf) : Prop := a.same b ∨ a.startsWith b ∨ b.startsWith a

instance (a b : PathBuf) : Decidable (a.overlaps b) := inferInstanceAs (Decidable (_ ∨ _ ∨ _))

theorem overlaps_symm (h : a.overlaps b) : b.overlaps a := by
  rcases h with h | h | h
  · exact Or.inl (Eq.symm h)
  · exact Or.inr (Or.inr h)
  · exact Or.inr (Or.inl h)

theorem overlaps_of_startsWith (ha : path.startsWith a) (hb : path.startsWith b) : a.overlaps b :=
  Or.inr (startsWith_or ha hb)

/-- The name of the last part: `Path::file_name`. -/
def fileName (path : PathBuf) : Option Text :=
  match path.components.getLast? with
  | some (.normal name) => some name
  | _ => none

/-! ### Joining -/

/-- `Path::join`: an absolute name replaces the path. -/
def join (path : PathBuf) (name : Text) : PathBuf :=
  if name.head? = some '/' then ⟨name⟩
  else if path.text = [] ∨ path.text.getLast? = some '/' then ⟨path.text ++ name⟩
  else ⟨path.text ++ '/' :: name⟩

/-- The first name of a path is that of its longer forms. -/
theorem head?_splitOn_append (t u : Text) :
    ((t ++ '/' :: u).splitOn '/').head? = (t.splitOn '/').head? := by
  rw [List.splitOn_append_cons_self, List.head?_append_of_ne_nil _ (List.splitOn_ne_nil _ _)]

/-- The parts of a path that goes on after a separator. -/
theorem components_append {t u : Text} (h : t ≠ []) :
    (⟨t ++ '/' :: u⟩ : PathBuf).components =
      (⟨t⟩ : PathBuf).components ++ (u.splitOn '/').filterMap PathComponent.ofName := by
  unfold components
  dsimp only
  rw [head?_splitOn_append, List.head?_append_of_ne_nil _ h, List.splitOn_append_cons_self,
    List.filterMap_append, List.append_assoc]

/-- **A joined path lies under its directory.** -/
theorem startsWith_join {name : Text} (h : name.head? ≠ some '/') :
    (path.join name).startsWith path := by
  obtain ⟨t⟩ := path
  unfold join startsWith
  rw [if_neg h]
  dsimp only
  split_ifs with hlast
  · rcases hlast with rfl | hlast
    · exact List.nil_prefix
    · -- a path that ends in a separator has no part after it
      obtain ⟨t, rfl⟩ := List.getLast?_eq_some_iff.mp hlast
      rw [List.append_assoc]
      by_cases ht : t = []
      · subst ht
        unfold components
        exact (List.prefix_append ..)
      · rw [show t ++ (['/'] ++ name) = t ++ '/' :: name from rfl, components_append ht,
          components_append ht]
        exact (List.prefix_append_right_inj _).mpr (by simp [PathComponent.ofName])
  · rw [components_append (not_or.mp hlast).1]
    exact List.prefix_append ..

end PathBuf
end Dayseam
