import Dayseam.Core.Activity
import Mathlib

/-!
# The Atlassian Document Format

The bodies of Jira comments and Confluence pages are trees of nodes.  They are flattened
to plain text when they are read; of a mention only the name that it shows is taken.

## Main definitions

* `AdfNode` — the types of nodes.
* `Adf.walk`, `Adf.adfToPlain` — the flattening.
-/

namespace Dayseam

/-- The types of nodes that are told apart. -/
inductive AdfNode
  | doc
  | paragraph
  | text
  | mention
  | hardBreak
  | bulletList
  | orderedList
  | listItem
  | codeBlock
  | heading
  | blockquote
  | rule
  | emoji
  | card
  | media
  | unknown
  deriving DecidableEq, Repr

def AdfNode.parse (t : Text) : AdfNode :=
  if t = "doc".toList then .doc
  else if t = "paragraph".toList then .paragraph
  else if t = "text".toList then .text
  else if t = "mention".toList then .mention
  else if t = "hardBreak".toList then .hardBreak
  else if t = "bulletList".toList then .bulletList
  else if t = "orderedList".toList then .orderedList
  else if t = "listItem".toList then .listItem
  else if t = "codeBlock".toList then .codeBlock
  else if t = "heading".toList then .heading
  else if t = "blockquote".toList then .blockquote
  else if t = "rule".toList then .rule
  else if t = "emoji".toList then .emoji
  else if t ∈ ["inlineCard".toList, "blockCard".toList] then .card
  else if t ∈ ["media".toList, "mediaGroup".toList, "mediaSingle".toList,
      "mediaInline".toList] then .media
  else .unknown

namespace Adf

/-- What stands in the place of a node that cannot be shown. -/
def UNSUPPORTED_MARKER : Text := "[unsupported content]".toList

/-! ### The parts of a node -/

variable (value : Json)

def nodeType : Text := (value.strAt ["type".toList]).getD []

def attrText (name : Text) : Text := (value.strAt ["attrs".toList, name]).getD []

/-- The children of a node, where they are an array. -/
def children : Option (List Json) := (value.get "content".toList).bind Json.asArray

/-- A heading has a level from one to six. -/
def level : ℕ :=
  max 1 (min 6 (((value.path ["attrs".toList, "level".toList]).bind Json.asU64).getD 1))

variable {value}

theorem sizeOf_lt_of_get {key : Text} {field : Json} (h : value.get key = some field) :
    sizeOf field < sizeOf value := by
  cases value with
  | object fields =>
    obtain ⟨⟨k, v⟩, hfind, rfl⟩ := Option.map_eq_some_iff.mp h
    have hmem := List.sizeOf_lt_of_mem (List.mem_of_find?_eq_some hfind)
    simp only [Prod.mk.sizeOf_spec] at hmem
    simp only [Json.object.sizeOf_spec]
    omega
  | _ => exact nomatch h

/-- A child is smaller than its node. -/
theorem sizeOf_lt_of_mem_children {items : List Json} {item : Json}
    (h : children value = some items) (hitem : item ∈ items) : sizeOf item < sizeOf value := by
  obtain ⟨content, hget, harray⟩ := Option.bind_eq_some_iff.mp h
  have hcontent := sizeOf_lt_of_get hget
  cases content with
  | array items' =>
    obtain rfl := Option.some.inj harray
    have hmem := List.sizeOf_lt_of_mem hitem
    simp only [Json.array.sizeOf_spec] at hcontent
    omega
  | _ => exact nomatch harray

/-! ### The flattening -/

/-- End a line that was begun. -/
def closeLine (out : Text) : Text := if out.getLast? = some '\n' then out else out ++ ['\n']

/-- Take a newline back from the end of what was added. -/
def trimNewline (before out : Text) : Text :=
  if before.length < out.length ∧ out.getLast? = some '\n' then out.dropLast else out

/-- Flatten a node to the end of a text. -/
def walk (value : Json) (out : Text) : Text :=
  let walkContent (out : Text) : Text :=
    match _h : children value with
    | none => out
    | some items => items.attach.foldl (fun out item => walk item.1 out) out
  let walkList (mark : ℕ → Text) : Text :=
    match _h : children value with
    | none => out ++ UNSUPPORTED_MARKER
    | some items =>
      items.attach.zipIdx.foldl (fun out item => walk item.1.1 (out ++ mark item.2) ++ ['\n']) out
  match AdfNode.parse (nodeType value) with
  | .doc => walkContent out
  | .paragraph => walkContent out ++ ['\n']
  | .text => out ++ (value.strAt ["text".toList]).getD []
  | .mention | .emoji => out ++ attrText value "text".toList
  | .hardBreak => out ++ ['\n']
  | .bulletList => walkList fun _ => "- ".toList
  | .orderedList => walkList fun idx => Nat.toDigits 10 (idx + 1) ++ ". ".toList
  | .listItem => trimNewline out (walkContent out)
  | .codeBlock =>
    let fence := out ++ "```".toList ++ attrText value "language".toList ++ ['\n']
    closeLine (walkContent fence) ++ "```\n".toList
  | .heading =>
    walkContent (out ++ List.replicate (level value) '#' ++ [' ']) ++ ['\n']
  | .blockquote => closeLine (walkContent (out ++ "> ".toList))
  | .rule => out ++ "\n---\n".toList
  | .card => out ++ attrText value "url".toList
  | .media => out
  | .unknown => out ++ UNSUPPORTED_MARKER
termination_by sizeOf value
decreasing_by
  · exact sizeOf_lt_of_mem_children _h item.2
  · exact sizeOf_lt_of_mem_children _h item.1.2

/-- One newline is taken from the end of the text. -/
def adfToPlain (value : Json) : Text :=
  let out := walk value []
  if out.getLast? = some '\n' then out.dropLast else out

end Adf
end Dayseam
