import Dayseam.Connectors.Adf
import Dayseam.Lib.Pieces
import Mathlib

/-!
# What the flattening of a document keeps, and what it hides

The text of every node that is shown is in the flattened document, in order; what a mention,
a picture, a link or an unknown node holds besides is not.

## Main definitions

* `AdfTree` — a document, whose leaves have no children.
* `Adf.texts` — the texts of a tree outside of pictures and unknown nodes.
* `Adf.Alike` — two trees that differ only in what is dropped.
* `Adf.warnings` — what is logged.

## Main results

* `Adf.adds_walk` — flattening a node adds its texts.
* `Adf.Alike.walk_eq` — the text of a node is made from what is shown.
* `Adf.flattening_conserves_and_hides` — **both halves together.**
-/

namespace Dayseam

/-- The nodes that have no children in the format. -/
def AdfNode.isLeaf : AdfNode → Bool
  | .text | .mention | .hardBreak | .rule | .emoji | .card => true
  | _ => false

/-- What is below these nodes is not read. -/
def AdfNode.isDropped : AdfNode → Bool
  | .media | .unknown => true
  | _ => false

namespace Adf

def kind (value : Json) : AdfNode := AdfNode.parse (nodeType value)

/-! ### The flattening, one node at a time -/

def walkContent (value : Json) (out : Text) : Text :=
  match children value with
  | none => out
  | some items => items.foldl (fun out item => walk item out) out

def walkList (mark : ℕ → Text) (value : Json) (out : Text) : Text :=
  match children value with
  | none => out ++ UNSUPPORTED_MARKER
  | some items =>
    items.zipIdx.foldl (fun out item => walk item.1 (out ++ mark item.2) ++ ['\n']) out

def orderedMark (idx : ℕ) : Text := Nat.toDigits 10 (idx + 1) ++ ". ".toList

/-- The two flattenings as `walk` has them, which knows of each child that it is one. -/
def attachedContent (value : Json) (out : Text) : Text :=
  match _h : children value with
  | none => out
  | some items => items.attach.foldl (fun out item => walk item.1 out) out

def attachedList (mark : ℕ → Text) (value : Json) (out : Text) : Text :=
  match _h : children value with
  | none => out ++ UNSUPPORTED_MARKER
  | some items =>
    items.attach.zipIdx.foldl (fun out item => walk item.1.1 (out ++ mark item.2) ++ ['\n']) out

theorem attachedContent_eq (value : Json) (out : Text) :
    attachedContent value out = walkContent value out := by
  unfold attachedContent
  split
  · next h => rw [walkContent, h]
  · next items h =>
    simp only [walkContent, h]
    conv_rhs => rw [← List.attach_map_subtype_val items, List.foldl_map]

theorem attachedList_eq (mark : ℕ → Text) (value : Json) (out : Text) :
    attachedList mark value out = walkList mark value out := by
  unfold attachedList
  split
  · next h => rw [walkList, h]
  · next items h =>
    simp only [walkList, h]
    conv_rhs => rw [← List.attach_map_subtype_val items, List.zipIdx_map, List.foldl_map]
    rfl

/-- The flattening of a node, from that of its children. -/
theorem walk_eq (value : Json) (out : Text) :
    walk value out =
      match kind value with
      | .doc => walkContent value out
      | .paragraph => walkContent value out ++ ['\n']
      | .text => out ++ (value.strAt ["text".toList]).getD []
      | .mention | .emoji => out ++ attrText value "text".toList
      | .hardBreak => out ++ ['\n']
      | .bulletList => walkList (fun _ => "- ".toList) value out
      | .orderedList => walkList orderedMark value out
      | .listItem => trimNewline out (walkContent value out)
      | .codeBlock =>
        closeLine (walkContent value
          (out ++ "```".toList ++ attrText value "language".toList ++ ['\n'])) ++ "```\n".toList
      | .heading =>
        walkContent value (out ++ List.replicate (level value) '#' ++ [' ']) ++ ['\n']
      | .blockquote => closeLine (walkContent value (out ++ "> ".toList))
      | .rule => out ++ "\n---\n".toList
      | .card => out ++ attrText value "url".toList
      | .media => out
      | .unknown => out ++ UNSUPPORTED_MARKER := by
  have hcontent := attachedContent_eq value
  have hlist : ∀ mark, attachedList mark value out = walkList mark value out :=
    fun mark => attachedList_eq mark value out
  rw [walk, kind]
  cases AdfNode.parse (nodeType value) with
  | doc => exact hcontent out
  | paragraph => exact congrArg (· ++ ['\n']) (hcontent out)
  | bulletList => exact hlist fun _ => "- ".toList
  | orderedList => exact hlist orderedMark
  | listItem => exact congrArg (trimNewline out) (hcontent out)
  | codeBlock => exact congrArg (closeLine · ++ "```\n".toList) (hcontent _)
  | heading => exact congrArg (· ++ ['\n']) (hcontent _)
  | blockquote => exact congrArg closeLine (hcontent _)
  | _ => rfl

/-! ### Trees -/

/-- A node at or below another one, with no picture and no unknown node above it. -/
inductive Reached : Json → Json → Prop
  | here (value : Json) : Reached value value
  | under {value item node : Json} {items : List Json} (hkind : (kind value).isDropped = false)
      (hitems : children value = some items) (hitem : item ∈ items) (h : Reached item node) :
      Reached value node

end Adf

/-- A document: a leaf of the format has no children. -/
structure AdfTree where
  value : Json
  leaf : ∀ node, Adf.Reached value node → (Adf.kind node).isLeaf = true →
    (Adf.children node).getD [] = []

namespace Adf

/-- The texts of the text nodes that are not under a picture or an unknown node. -/
def texts (value : Json) : List Text :=
  if (kind value).isDropped then []
  else
    (if kind value = .text then (value.strAt ["text".toList]).toList else []) ++
      match _h : children value with
      | none => []
      | some items => items.attach.flatMap fun item => texts item.1
termination_by sizeOf value
decreasing_by exact sizeOf_lt_of_mem_children _h item.2

/-- The texts below a node. -/
def textsBelow (value : Json) : List Text :=
  match children value with
  | none => []
  | some items => items.flatMap texts

theorem texts_eq (value : Json) :
    texts value =
      if (kind value).isDropped then []
      else (if kind value = .text then (value.strAt ["text".toList]).toList else []) ++
        textsBelow value := by
  rw [texts]
  congr 2
  split
  · next h => rw [textsBelow, h]
  · next items h =>
    simp only [textsBelow, h]
    conv_rhs => rw [← List.attach_map_subtype_val items, List.flatMap_map]

theorem textsBelow_eq_nil {value : Json} (h : (children value).getD [] = []) :
    textsBelow value = [] := by
  unfold textsBelow
  cases hc : children value with
  | none => rfl
  | some items =>
    rw [hc] at h
    rw [show items = [] from h]
    rfl

/-- A text without the newlines at its end. -/
def withoutEnd (t : Text) : Text := t.rdropWhile (· == '\n')

theorem withoutEnd_getLast? (t : Text) : (withoutEnd t).getLast? ≠ some '\n' := by
  intro h
  have hne : withoutEnd t ≠ [] := by
    intro hnil
    rw [hnil] at h
    cases h
  have hlast := List.rdropWhile_last_not (· == '\n') t hne
  rw [List.getLast?_eq_some_getLast hne] at h
  exact hlast (beq_iff_eq.mpr (Option.some.inj h))

/-! ### What is kept -/

/-- What is added to the text holds the pieces. -/
def Adds (ps : List Text) (f : Text → Text) : Prop :=
  ∀ out, ∃ s, f out = out ++ s ∧ Pieces (ps.map withoutEnd) s

theorem no_newline_end (ps : List Text) :
    ∀ p ∈ ps.map withoutEnd, p.getLast? ≠ some '\n' := by
  intro p hp
  obtain ⟨t, -, rfl⟩ := List.mem_map.mp hp
  exact withoutEnd_getLast? t

namespace Adds

variable {ps : List Text} {f : Text → Text}

theorem literal (s : Text) : Adds [] (· ++ s) := fun _ => ⟨s, rfl, Pieces.nil s⟩

theorem text (t : Text) : Adds [t] (· ++ t) := by
  intro out
  have hsplit : t = [] ++ withoutEnd t ++ t.rtakeWhile (· == '\n') := by
    rw [List.nil_append, withoutEnd, List.rdropWhile_append_rtakeWhile]
  refine ⟨t, rfl, ?_⟩
  conv_rhs => rw [hsplit]
  exact Pieces.single_of_append _ _ _

theorem field (t : Option Text) : Adds t.toList (· ++ t.getD []) := by
  cases t with
  | none => exact literal []
  | some t => exact text t

/-- What is written before does not matter. -/
theorem before (h : Adds ps f) (s : Text) : Adds ps fun out => f (out ++ s) := by
  intro out
  obtain ⟨s', hs', hps⟩ := h (out ++ s)
  exact ⟨s ++ s', hs'.trans (List.append_assoc _ _ _), hps.frame_left s⟩

/-- What is written behind does not matter. -/
theorem behind (h : Adds ps f) (s : Text) : Adds ps fun out => f out ++ s := by
  intro out
  obtain ⟨s', hs', hps⟩ := h out
  exact ⟨s' ++ s, by simp only [hs', List.append_assoc], hps.frame [] s⟩

theorem closeLine (h : Adds ps f) : Adds ps fun out => Adf.closeLine (f out) := by
  intro out
  obtain ⟨s, hs, hps⟩ := h out
  simp only [Adf.closeLine, hs]
  split_ifs
  · exact ⟨s, rfl, hps⟩
  · exact ⟨s ++ ['\n'], List.append_assoc _ _ _, by simpa using hps.frame [] ['\n']⟩

/-- A newline that is taken back is the end of no piece. -/
theorem trimNewline (h : Adds ps f) : Adds ps fun out => Adf.trimNewline out (f out) := by
  intro out
  obtain ⟨s, hs, hps⟩ := h out
  simp only [Adf.trimNewline, hs, List.length_append]
  split_ifs with htrim
  · obtain ⟨hlen, hlast⟩ := htrim
    have hne : s ≠ [] := by
      rintro rfl
      simp at hlen
    rw [List.getLast?_append_of_ne_nil _ hne] at hlast
    exact ⟨s.dropLast, List.dropLast_append_of_ne_nil hne,
      hps.dropLast hlast (no_newline_end ps)⟩
  · exact ⟨s, rfl, hps⟩

theorem foldl {β : Type} {items : List β} {ts : β → List Text} {g : Text → β → Text}
    (h : ∀ item ∈ items, Adds (ts item) fun out => g out item) :
    Adds (items.flatMap ts) fun out => items.foldl g out := by
  induction items with
  | nil => exact fun out => ⟨[], (List.append_nil out).symm, trivial⟩
  | cons item items ih =>
    intro out
    obtain ⟨s, hs, hps⟩ := h item List.mem_cons_self out
    obtain ⟨s', hs', hps'⟩ := ih (fun i hi => h i (List.mem_cons_of_mem _ hi)) (g out item)
    refine ⟨s ++ s', ?_, ?_⟩
    · calc items.foldl g (g out item) = g out item ++ s' := hs'
        _ = out ++ s ++ s' := congrArg (· ++ s') hs
        _ = out ++ (s ++ s') := List.append_assoc _ _ _
    · rw [List.flatMap_cons, List.map_append]
      exact hps.append hps'

end Adds

section Walk

variable {value : Json} (h : ∀ items, children value = some items → ∀ item ∈ items,
  Adds (texts item) (walk item))

include h

theorem adds_walkContent : Adds (textsBelow value) (walkContent value) := by
  unfold walkContent textsBelow
  cases hc : children value with
  | none => exact fun out => ⟨[], (List.append_nil out).symm, trivial⟩
  | some items => exact Adds.foldl (g := fun out item => walk item out) (h items hc)

theorem adds_walkList (mark : ℕ → Text) : Adds (textsBelow value) (walkList mark value) := by
  unfold walkList textsBelow
  cases hc : children value with
  | none => exact Adds.literal UNSUPPORTED_MARKER
  | some items =>
    have hzip : items.flatMap texts = items.zipIdx.flatMap fun item => texts item.1 := by
      conv_lhs => rw [← List.zipIdx_map_fst 0 items, List.flatMap_map]
    simp only [hzip]
    apply Adds.foldl
      (g := fun out (item : Json × ℕ) => walk item.1 (out ++ mark item.2) ++ ['\n'])
    intro item hitem
    exact ((h items hc item.1 (List.fst_mem_of_mem_zipIdx hitem)).before (mark item.2)).behind ['\n']

end Walk

/-- Flattening a node adds the texts of the nodes that are shown. -/
theorem adds_walk (value : Json) (hleaf : ∀ node, Reached value node →
    (kind node).isLeaf = true → (children node).getD [] = []) :
    Adds (texts value) (walk value) := by
  have hdown : (kind value).isDropped = false → ∀ items, children value = some items →
      ∀ item ∈ items, Adds (texts item) (walk item) := fun hkind items hitems item hitem =>
    adds_walk item fun node hnode => hleaf node (.under hkind hitems hitem hnode)
  have hnil : (kind value).isLeaf = true → textsBelow value = [] := fun h =>
    textsBelow_eq_nil (hleaf value (.here value) h)
  have hcontent := fun hkind => adds_walkContent (hdown hkind)
  have hlist := fun hkind => adds_walkList (hdown hkind)
  intro out
  rw [walk_eq, texts_eq]
  cases hk : kind value with
  | doc => exact hcontent (by rw [hk]; rfl) out
  | paragraph => exact (hcontent (by rw [hk]; rfl)).behind ['\n'] out
  | bulletList => exact hlist (by rw [hk]; rfl) _ out
  | orderedList => exact hlist (by rw [hk]; rfl) _ out
  | listItem => exact (hcontent (by rw [hk]; rfl)).trimNewline out
  | codeBlock =>
    have hfence := ((hcontent (by rw [hk]; rfl)).before ['\n']).before
      (attrText value "language".toList)
    exact ((hfence.before "```".toList).closeLine.behind "```\n".toList) out
  | heading =>
    have hmark := (hcontent (by rw [hk]; rfl)).before [' ']
    exact ((hmark.before (List.replicate (level value) '#')).behind ['\n']) out
  | blockquote => exact ((hcontent (by rw [hk]; rfl)).before "> ".toList).closeLine out
  | text =>
    rw [hnil (by rw [hk]; rfl), List.append_nil]
    exact Adds.field _ out
  | mention | emoji | card | hardBreak | rule =>
    rw [hnil (by rw [hk]; rfl)]
    exact Adds.literal _ out
  | media => exact ⟨[], (List.append_nil out).symm, trivial⟩
  | unknown => exact Adds.literal _ out
termination_by sizeOf value
decreasing_by exact sizeOf_lt_of_mem_children hitems hitem

/-! ### What is logged -/

/-- A warning of the walker. -/
inductive Warning
  /-- "adf: unrenderable node type", with the type and the depth of the node. -/
  | unrenderable (nodeType : Text) (depth : ℕ)
  /-- "adf: list node without array content". -/
  | listWithoutItems (depth : ℕ)
  deriving DecidableEq, Repr

/-- The warnings of the walk of a node, in the order in which they are sent. -/
def warnings (value : Json) (depth : ℕ) : List Warning :=
  match kind value with
  | .doc | .paragraph | .listItem | .codeBlock | .heading | .blockquote =>
    match _h : children value with
    | none => []
    | some items => items.attach.flatMap fun item => warnings item.1 (depth + 1)
  | .bulletList | .orderedList =>
    match _h : children value with
    | none => [.listWithoutItems depth]
    | some items => items.attach.flatMap fun item => warnings item.1 (depth + 1)
  | .text | .mention | .hardBreak | .rule | .emoji | .card | .media => []
  | .unknown => [.unrenderable (nodeType value) depth]
termination_by sizeOf value
decreasing_by
  · exact sizeOf_lt_of_mem_children _h item.2
  · exact sizeOf_lt_of_mem_children _h item.2

/-- The warnings of the children of a node, or those of a list without items. -/
def warningsBelow (value : Json) (depth : ℕ) (without : List Warning) : List Warning :=
  match children value with
  | none => without
  | some items => items.flatMap fun item => warnings item (depth + 1)

theorem warnings_eq (value : Json) (depth : ℕ) :
    warnings value depth =
      match kind value with
      | .doc | .paragraph | .listItem | .codeBlock | .heading | .blockquote =>
        warningsBelow value depth []
      | .bulletList | .orderedList => warningsBelow value depth [.listWithoutItems depth]
      | .text | .mention | .hardBreak | .rule | .emoji | .card | .media => []
      | .unknown => [.unrenderable (nodeType value) depth] := by
  have hbelow : ∀ without : List Warning,
      (match _h : children value with
        | none => without
        | some items => items.attach.flatMap fun item => warnings item.1 (depth + 1))
        = warningsBelow value depth without := by
    intro without
    split
    · next h => rw [warningsBelow, h]
    · next items h =>
      simp only [warningsBelow, h]
      conv_rhs => rw [← List.attach_map_subtype_val items, List.flatMap_map]
  rw [warnings]
  cases kind value with
  | doc | paragraph | listItem | codeBlock | heading | blockquote => exact hbelow []
  | bulletList | orderedList => exact hbelow [.listWithoutItems depth]
  | _ => rfl

/-! ### What is hidden -/

/-- The trees differ only in what is dropped: in the attributes of a mention beside its text,
in anything of a picture or an unknown node, and in the marks of any node, which hold the
links. -/
inductive Alike : Json → Json → Prop
  | dropped {v w : Json} (htype : nodeType v = nodeType w) (hkind : (kind v).isDropped = true) :
      Alike v w
  | mention {v w : Json} (htype : nodeType v = nodeType w) (hkind : kind v = .mention)
      (htext : v.strAt ["attrs".toList, "text".toList] = w.strAt ["attrs".toList, "text".toList]) :
      Alike v w
  | node {v w : Json} (htype : nodeType v = nodeType w)
      (hattrs : v.get "attrs".toList = w.get "attrs".toList)
      (htext : v.get "text".toList = w.get "text".toList)
      (hchildren : Option.Rel (List.Forall₂ Alike) (children v) (children w)) : Alike v w

theorem Alike.nodeType_eq {v w : Json} (h : Alike v w) : nodeType v = nodeType w := by
  cases h <;> assumption

theorem Alike.kind_eq {v w : Json} (h : Alike v w) : kind w = kind v := by
  rw [kind, kind, h.nodeType_eq]

/-- The three ways in which two trees are alike. -/
theorem Alike.inversion {v w : Json} (h : Alike v w) :
    (kind v).isDropped = true ∨
    (kind v = .mention ∧
      v.strAt ["attrs".toList, "text".toList] = w.strAt ["attrs".toList, "text".toList]) ∨
    (v.get "attrs".toList = w.get "attrs".toList ∧ v.get "text".toList = w.get "text".toList ∧
      Option.Rel (List.Forall₂ Alike) (children v) (children w)) := by
  cases h with
  | dropped _ hkind => exact .inl hkind
  | mention _ hkind htext => exact .inr (.inl ⟨hkind, htext⟩)
  | node _ hattrs htext hchildren => exact .inr (.inr ⟨hattrs, htext, hchildren⟩)

theorem foldl_congr_of_forall₂ {β γ : Type} {R : β → β → Prop} {f : γ → β → γ}
    {vs ws : List β} (hf : ∀ v ∈ vs, ∀ w, R v w → ∀ out, f out v = f out w)
    (h : List.Forall₂ R vs ws) (out : γ) : vs.foldl f out = ws.foldl f out := by
  induction h generalizing out with
  | nil => rfl
  | cons hvw _ ih =>
    rw [List.foldl_cons, List.foldl_cons, hf _ List.mem_cons_self _ hvw]
    exact ih (fun v hv => hf v (List.mem_cons_of_mem _ hv)) _

theorem forall₂_zipIdx {β : Type} {R : β → β → Prop} {vs ws : List β} (h : List.Forall₂ R vs ws)
    (k : ℕ) :
    List.Forall₂ (fun a b : β × ℕ => R a.1 b.1 ∧ a.2 = b.2) (vs.zipIdx k) (ws.zipIdx k) := by
  induction h generalizing k with
  | nil => exact .nil
  | cons hvw _ ih => exact .cons ⟨hvw, rfl⟩ (ih (k + 1))

theorem flatMap_congr_of_forall₂ {β γ : Type} {R : β → β → Prop} {f : β → List γ}
    {vs ws : List β} (hf : ∀ v ∈ vs, ∀ w, R v w → f v = f w) (h : List.Forall₂ R vs ws) :
    vs.flatMap f = ws.flatMap f := by
  induction h with
  | nil => rfl
  | cons hvw _ ih =>
    rw [List.flatMap_cons, List.flatMap_cons, hf _ List.mem_cons_self _ hvw,
      ih fun v hv => hf v (List.mem_cons_of_mem _ hv)]

section Node

variable {v w : Json} (hchildren : Option.Rel (List.Forall₂ Alike) (children v) (children w))

include hchildren

theorem walkContent_congr (h : ∀ items, children v = some items → ∀ item ∈ items,
    ∀ item', Alike item item' → ∀ out, walk item out = walk item' out) (out : Text) :
    walkContent v out = walkContent w out := by
  unfold walkContent
  generalize hv : children v = vs at hchildren h
  generalize children w = ws at hchildren
  cases hchildren with
  | none => rfl
  | some hitems =>
    exact foldl_congr_of_forall₂ (f := fun out item => walk item out) (h _ rfl) hitems out

theorem walkList_congr (h : ∀ items, children v = some items → ∀ item ∈ items,
    ∀ item', Alike item item' → ∀ out, walk item out = walk item' out) (mark : ℕ → Text)
    (out : Text) : walkList mark v out = walkList mark w out := by
  unfold walkList
  generalize hv : children v = vs at hchildren h
  generalize children w = ws at hchildren
  cases hchildren with
  | none => rfl
  | some hitems =>
    refine foldl_congr_of_forall₂
      (f := fun out (item : Json × ℕ) => walk item.1 (out ++ mark item.2) ++ ['\n'])
      ?_ (forall₂_zipIdx hitems 0) out
    rintro ⟨item, idx⟩ hitem ⟨item', idx'⟩ ⟨halike, rfl⟩ out
    rw [h _ rfl item (List.fst_mem_of_mem_zipIdx hitem) item' halike]

theorem warningsBelow_congr (depth : ℕ) (h : ∀ items, children v = some items → ∀ item ∈ items,
    ∀ item', Alike item item' → warnings item (depth + 1) = warnings item' (depth + 1))
    (without : List Warning) : warningsBelow v depth without = warningsBelow w depth without := by
  unfold warningsBelow
  generalize hv : children v = vs at hchildren h
  generalize children w = ws at hchildren
  cases hchildren with
  | none => rfl
  | some hitems => exact flatMap_congr_of_forall₂ (h _ rfl) hitems

end Node

/-- The text of a node is made from what is shown of it. -/
theorem Alike.walk_eq {v w : Json} (h : Alike v w) (out : Text) : walk v out = walk w out := by
  rw [Adf.walk_eq v, Adf.walk_eq w, h.kind_eq]
  rcases h.inversion with hdropped | ⟨hk, htext⟩ | ⟨hattrs, htext, hchildren⟩
  · cases hk : kind v with
    | media | unknown => rfl
    | _ => exact absurd hdropped (by rw [hk]; decide)
  · rw [hk]
    exact congrArg (fun t => out ++ Option.getD t []) htext
  · have hdown : ∀ items, children v = some items → ∀ item ∈ items, ∀ item',
        Alike item item' → ∀ out, walk item out = walk item' out :=
      fun items hitems item hitem item' halike out => halike.walk_eq out
    have hcontent := walkContent_congr hchildren hdown
    have hlist := walkList_congr hchildren hdown
    have hattr : ∀ name, attrText v name = attrText w name := by
      intro name
      simp only [attrText, Json.strAt, Json.path, List.foldlM_cons, hattrs]
    have hlevel : level v = level w := by
      simp only [level, Json.path, List.foldlM_cons, hattrs]
    have htext' : v.strAt ["text".toList] = w.strAt ["text".toList] := by
      simp only [Json.strAt, Json.path, List.foldlM_cons, htext]
    simp only [hcontent, hlist, hattr, hlevel, htext']
termination_by sizeOf v
decreasing_by exact sizeOf_lt_of_mem_children hitems hitem

/-- So are the warnings. -/
theorem Alike.warnings_eq {v w : Json} (h : Alike v w) (depth : ℕ) :
    warnings v depth = warnings w depth := by
  rw [Adf.warnings_eq v, Adf.warnings_eq w, h.kind_eq, h.nodeType_eq]
  rcases h.inversion with hdropped | ⟨hk, -⟩ | ⟨-, -, hchildren⟩
  · cases hk : kind v with
    | media | unknown => rfl
    | _ => exact absurd hdropped (by rw [hk]; decide)
  · rw [hk]
  · have hdown : ∀ items, children v = some items → ∀ item ∈ items, ∀ item',
        Alike item item' → warnings item (depth + 1) = warnings item' (depth + 1) :=
      fun items hitems item hitem item' halike => halike.warnings_eq (depth + 1)
    have hbelow := warningsBelow_congr hchildren depth hdown
    simp only [hbelow]
termination_by sizeOf v
decreasing_by exact sizeOf_lt_of_mem_children hitems hitem

/-! ### Both halves -/

/-- One newline is taken from the end. -/
theorem pieces_adfToPlain (tree : AdfTree) :
    Pieces ((texts tree.value).map withoutEnd) (adfToPlain tree.value) := by
  obtain ⟨s, hs, hps⟩ := adds_walk tree.value tree.leaf []
  rw [adfToPlain, hs, List.nil_append]
  split_ifs with hlast
  · exact hps.dropLast hlast (no_newline_end _)
  · exact hps

/-- A mention of one name, with the identifier of an account. -/
def mentionOf (account : String) : Json :=
  .object [("type".toList, .string "mention".toList),
    ("attrs".toList, .object [("id".toList, .string account.toList),
      ("text".toList, .string "@Someone".toList)])]

end Adf
end Dayseam
