import Mathlib.Data.List.Basic
import Mathlib.InformationTheory.Coding.UniquelyDecodable

namespace FogFlow.JsonText

open InformationTheory

-- a reader that finds the end of every code word without looking at what follows it
theorem uniquelyDecodable_of_reader {α : Type*} {S : Set (List α)}
    (skip : List α → Option (List α)) (hread : ∀ w ∈ S, ∀ rest, skip (w ++ rest) = some rest)
    (hne : [] ∉ S) : UniquelyDecodable S := by
  intro ws
  induction ws with
  | nil =>
    intro ws' _ hws' heq
    cases ws' with
    | nil => rfl
    | cons w' ws' =>
      have hw' : w' = [] := by simpa using List.flatten_eq_nil_iff.mp heq.symm w' List.mem_cons_self
      exact absurd (hws' w' List.mem_cons_self) (hw' ▸ hne)
  | cons w ws ih =>
    intro ws' hws hws' heq
    have hw := hread w (hws w List.mem_cons_self)
    cases ws' with
    | nil =>
      have hnil : w = [] := by simpa using List.flatten_eq_nil_iff.mp heq w List.mem_cons_self
      exact absurd (hws w List.mem_cons_self) (hnil ▸ hne)
    | cons w' ws' =>
      have hw' := hread w' (hws' w' List.mem_cons_self)
      rw [List.flatten_cons, List.flatten_cons] at heq
      have hrest : ws.flatten = ws'.flatten := by
        have hskip := hw ws.flatten
        rw [heq, hw'] at hskip
        exact (Option.some.inj hskip).symm
      rw [hrest] at heq
      rw [List.append_cancel_right heq]
      rw [ih ws' (fun v hv => hws v (List.mem_cons_of_mem _ hv))
        (fun v hv => hws' v (List.mem_cons_of_mem _ hv)) hrest]

def quote : Char := Char.ofNat 0x22

def backslash : Char := Char.ofNat 0x5C

def braceOpen : Char := Char.ofNat 0x7B

def braceClose : Char := Char.ofNat 0x7D

def opens (c : Char) : Bool := c == '[' || c == braceOpen

def closes (c : Char) : Bool := c == ']' || c == braceClose

-- which escapes there are does not matter here
inductive StringBody : List Char → Prop where
  | nil : StringBody []
  | char {c : Char} {cs : List Char} : c ≠ quote → c ≠ backslash → StringBody cs →
      StringBody (c :: cs)
  | escape {c : Char} {cs : List Char} : StringBody cs → StringBody (backslash :: c :: cs)

theorem stringBody_of_plain {cs : List Char}
    (h : (cs.all fun c => c != quote && c != backslash) = true) : StringBody cs := by
  induction cs with
  | nil => exact .nil
  | cons c cs ih =>
    rw [List.all_cons, Bool.and_eq_true, Bool.and_eq_true, bne_iff_ne, bne_iff_ne] at h
    exact .char h.1.1 h.1.2 (ih h.2)

def quoted (body : List Char) : List Char := quote :: body ++ [quote]

def member (m : List Char × List Char) : List Char := quoted m.1 ++ ':' :: m.2

def arrayText (items : List (List Char)) : List Char := '[' :: [','].intercalate items ++ [']']

def objectText (members : List (List Char × List Char)) : List Char :=
  braceOpen :: [','].intercalate (members.map member) ++ [braceClose]

def Plain (c : Char) : Prop := c ≠ quote ∧ opens c = false ∧ closes c = false

-- the texts that are written without white space; null, the booleans and the numbers are words
inductive Text : List Char → Prop where
  | word {cs : List Char} : (∀ c ∈ cs, Plain c) → Text cs
  | string {body : List Char} : StringBody body → Text (quoted body)
  | array {items : List (List Char)} : (∀ item ∈ items, Text item) → Text (arrayText items)
  | object {members : List (List Char × List Char)} : (∀ m ∈ members, StringBody m.1) →
      (∀ m ∈ members, Text m.2) → Text (objectText members)

def StringText (w : List Char) : Prop := ∃ body, StringBody body ∧ w = quoted body

def ObjectText (w : List Char) : Prop :=
  ∃ members : List (List Char × List Char), (∀ m ∈ members, StringBody m.1) ∧
    (∀ m ∈ members, Text m.2) ∧ w = objectText members

inductive Mode where
  | outside
  | inString
  | escaped

-- reads up to the end of the string or to the bracket that closes the first one
def skip : Nat → Mode → List Char → Option (List Char)
  | _, _, [] => none
  | d, .escaped, _ :: cs => skip d .inString cs
  | d, .inString, c :: cs =>
      if c = backslash then skip d .escaped cs
      else if c = quote then
        if d = 0 then some cs else skip d .outside cs
      else skip d .inString cs
  | d, .outside, c :: cs =>
      if c = quote then skip d .inString cs
      else if opens c then skip (d + 1) .outside cs
      else if closes c then
        if d - 1 = 0 then some cs else skip (d - 1) .outside cs
      else skip d .outside cs

-- inside a bracket the reader passes over the text
def Passed (w : List Char) : Prop :=
  ∀ d rest, skip (d + 1) .outside (w ++ rest) = skip (d + 1) .outside rest

section Passed

variable {u v w cs : List Char} {c : Char}

theorem passed_nil : Passed [] := fun _ _ => rfl

theorem Passed.append (hu : Passed u) (hv : Passed v) : Passed (u ++ v) := by
  intro d rest
  rw [List.append_assoc, hu, hv]

theorem passed_plain (hc : Plain c) : Passed [c] := by
  intro d rest
  rw [List.singleton_append, skip]
  simp [hc.1, hc.2.1, hc.2.2]

theorem passed_word (hcs : ∀ c ∈ cs, Plain c) : Passed cs := by
  induction cs with
  | nil => exact passed_nil
  | cons c cs ih =>
    obtain ⟨hc, hrest⟩ := List.forall_mem_cons.mp hcs
    exact (passed_plain hc).append (ih hrest)

theorem skip_stringBody (h : StringBody cs) (d : Nat) (rest : List Char) :
    skip d .inString (cs ++ quote :: rest) = if d = 0 then some rest else skip d .outside rest := by
  have hquote : quote ≠ backslash := by decide
  induction h with
  | nil =>
    rw [List.nil_append, skip]
    simp [hquote]
  | char hquoted hbackslash _ ih =>
    rw [List.cons_append, skip, if_neg hbackslash, if_neg hquoted, ih]
  | escape _ ih =>
    rw [List.cons_append, List.cons_append, skip, if_pos rfl, skip, ih]

theorem skip_quoted (h : StringBody cs) (d : Nat) (rest : List Char) :
    skip d .outside (quoted cs ++ rest) = if d = 0 then some rest else skip d .outside rest := by
  rw [quoted, List.cons_append, List.cons_append, List.append_assoc, skip, if_pos rfl,
    List.singleton_append, skip_stringBody h]

theorem passed_quoted (h : StringBody cs) : Passed (quoted cs) := by
  intro d rest
  rw [skip_quoted h, if_neg (Nat.succ_ne_zero d)]

theorem skip_bracketed {first last : Char} (hfirst : opens first = true)
    (hnotQuote : first ≠ quote) (hlast : closes last = true) (hplain : last ≠ quote)
    (hopens : opens last = false) (hw : Passed w) (d : Nat) (rest : List Char) :
    skip d .outside ((first :: w ++ [last]) ++ rest) =
      if d = 0 then some rest else skip d .outside rest := by
  rw [List.append_assoc, List.cons_append, skip, if_neg hnotQuote, if_pos hfirst, hw,
    List.singleton_append, skip, if_neg hplain, if_neg (by simp [hopens]), if_pos hlast,
    Nat.add_sub_cancel]

theorem passed_intercalate {ws : List (List Char)} (hws : ∀ w ∈ ws, Passed w) :
    Passed ([','].intercalate ws) := by
  have hcomma : Passed [','] := passed_plain ⟨by decide, by decide, by decide⟩
  induction ws with
  | nil => exact passed_nil
  | cons w ws ih =>
    obtain ⟨hw, hrest⟩ := List.forall_mem_cons.mp hws
    cases ws with
    | nil => rwa [List.intercalate_singleton]
    | cons w' ws =>
      rw [List.intercalate_cons_cons]
      exact (hw.append hcomma).append (ih hrest)

theorem skip_arrayText {items : List (List Char)} (hitems : ∀ item ∈ items, Passed item) (d : Nat)
    (rest : List Char) : skip d .outside (arrayText items ++ rest) =
      if d = 0 then some rest else skip d .outside rest :=
  skip_bracketed (by decide) (by decide) (by decide) (by decide) (by decide)
    (passed_intercalate hitems) d rest

theorem skip_objectText {members : List (List Char × List Char)}
    (hkeys : ∀ m ∈ members, StringBody m.1) (hvalues : ∀ m ∈ members, Passed m.2) (d : Nat)
    (rest : List Char) : skip d .outside (objectText members ++ rest) =
      if d = 0 then some rest else skip d .outside rest := by
  have hcolon : Passed [':'] := passed_plain ⟨by decide, by decide, by decide⟩
  have hmembers : ∀ w ∈ members.map member, Passed w := by
    intro w hw
    obtain ⟨m, hm, rfl⟩ := List.mem_map.mp hw
    exact (passed_quoted (hkeys m hm)).append (hcolon.append (hvalues m hm))
  exact skip_bracketed (by decide) (by decide) (by decide) (by decide) (by decide)
    (passed_intercalate hmembers) d rest

theorem passed_text (h : Text w) : Passed w := by
  induction h with
  | word hcs => exact passed_word hcs
  | string hbody => exact passed_quoted hbody
  | array _ ih => exact fun d rest => by rw [skip_arrayText ih, if_neg (Nat.succ_ne_zero d)]
  | object hkeys _ ih =>
    exact fun d rest => by rw [skip_objectText hkeys ih, if_neg (Nat.succ_ne_zero d)]

end Passed

-- strings and objects written one behind the other can be told apart
theorem uniquelyDecodable : UniquelyDecodable {w | StringText w ∨ ObjectText w} := by
  refine uniquelyDecodable_of_reader (skip 0 .outside) ?_ ?_
  · rintro w (⟨body, hbody, rfl⟩ | ⟨members, hkeys, hvalues, rfl⟩) rest
    · exact skip_quoted hbody 0 rest
    · exact skip_objectText hkeys (fun m hm => passed_text (hvalues m hm)) 0 rest
  · rintro (⟨body, -, h⟩ | ⟨members, -, -, h⟩)
    · cases h
    · cases h

end FogFlow.JsonText
