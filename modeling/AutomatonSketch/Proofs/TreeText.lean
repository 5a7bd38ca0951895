import AutomatonSketch.Format.ParseTree
import AutomatonSketch.Proofs.Forms
import AutomatonSketch.Proofs.Operands

/-! The text of a parse tree reads back as that tree, as long as it does not nest too deep: a token
takes one level, and an operator one more for its fields. -/

namespace AutomatonSketch

open Json

namespace ParseTree

mutual

/-- How deep the JSON form of a tree nests. -/
def nesting : ParseTree → Nat
  | literal _ => 1
  | or _ _ left right => 2 + max (operandNesting left) (operandNesting right)
  | concatenation _ _ left right => 2 + max (operandNesting left) (operandNesting right)
  | kleene _ _ inner => 2 + operandNesting inner

def operandNesting : Option ParseTree → Nat
  | none => 0
  | some t => t.nesting

end

theorem nesting_operandToJson {operand : Option ParseTree}
    (h : ∀ t ∈ operand.toList, t.toJson.nesting = t.nesting) :
    (operandToJson operand).nesting = operandNesting operand := by
  cases operand with
  | none => rfl
  | some t => exact h t (by simp)

theorem nesting_toJson (t : ParseTree) : t.toJson.nesting = t.nesting := by
  induction t using ParseTree.induction with
  | step t ih =>
    cases t with
    | literal character => rfl
    | or symbol name left right | concatenation symbol name left right =>
      have hleft := nesting_operandToJson fun t ht => ih t (List.mem_append_left _ ht)
      have hright := nesting_operandToJson fun t ht => ih t (List.mem_append_right _ ht)
      simp [toJson, operatorFields, Json.nesting, nestingMembers, nestingMember, hleft, hright,
        nesting]
      omega
    | kleene symbol name inner =>
      have hinner := nesting_operandToJson ih
      simp [toJson, operatorFields, Json.nesting, nestingMembers, nestingMember, hinner, nesting]
      omega

theorem toJson_ne_null (t : ParseTree) : t.toJson ≠ .null := by
  cases t <;> simp [toJson]

theorem asRead_operandToJson {operand : Option ParseTree}
    (h : ∀ t ∈ operand.toList, t.toJson.asRead = t.toJson) :
    (operandToJson operand).asRead = operandToJson operand := by
  cases operand with
  | none => exact asRead_null
  | some t => exact h t (by simp)

/-- There are no numbers in it, so every text of the form is read as the form. -/
theorem asRead_toJson (t : ParseTree) : t.toJson.asRead = t.toJson := by
  induction t using ParseTree.induction with
  | step t ih =>
    cases t with
    | literal character => simp [toJson]
    | or symbol name left right | concatenation symbol name left right =>
      have hleft := asRead_operandToJson fun t ht => ih t (List.mem_append_left _ ht)
      have hright := asRead_operandToJson fun t ht => ih t (List.mem_append_right _ ht)
      simp [toJson, operatorFields, hleft, hright]
    | kleene symbol name inner =>
      have hinner := asRead_operandToJson ih
      simp [toJson, operatorFields, hinner]

section Reads

variable {budget : Nat}

/-- With this budget the reader gives a tree back exactly if it does not nest deeper. -/
def ReadsWithin (budget : Nat) (t : ParseTree) : Prop :=
  ofJson? budget t.toJson = if t.nesting ≤ budget then some t else none

theorem option?_operandToJson {operand : Option ParseTree}
    (h : ∀ t ∈ operand.toList, t.ReadsWithin budget) :
    option? (ofJson? budget) (operandToJson operand) =
      if operandNesting operand ≤ budget then some operand else none := by
  cases operand with
  | none => rfl
  | some t =>
    have hread : ofJson? budget t.toJson = if t.nesting ≤ budget then some t else none :=
      h t (by simp)
    rw [operandToJson, option?, hread, operandNesting]
    · split <;> rfl
    · exact t.toJson_ne_null

theorem binaryOfJson?_fields
    {m : String → String → Option ParseTree → Option ParseTree → ParseTree}
    (symbol name : String) {left right : Option ParseTree}
    (hleft : ∀ t ∈ left.toList, t.ReadsWithin budget)
    (hright : ∀ t ∈ right.toList, t.ReadsWithin budget) :
    binaryOfJson? (ofJson? budget) m (operatorFields symbol name
        [("left_argument", operandToJson left), ("right_argument", operandToJson right)]) =
      if max (operandNesting left) (operandNesting right) ≤ budget then
        some (m symbol name left right) else none := by
  rw [binaryOfJson?, operatorFields, Record.of?_object]
  · by_cases hl : operandNesting left ≤ budget <;> by_cases hr : operandNesting right ≤ budget <;>
      simp [Record.required, Record.withDefault, Record.optional, text?,
        option?_operandToJson hleft, option?_operandToJson hright, hl, hr]
  · rfl
  · decide

theorem unaryOfJson?_fields (symbol name : String) {inner : Option ParseTree}
    (hinner : ∀ t ∈ inner.toList, t.ReadsWithin budget) :
    unaryOfJson? (ofJson? budget)
        (operatorFields symbol name [("inner_argument", operandToJson inner)]) =
      if operandNesting inner ≤ budget then some (kleene symbol name inner) else none := by
  rw [unaryOfJson?, operatorFields, Record.of?_object]
  · by_cases hi : operandNesting inner ≤ budget <;>
      simp [Record.required, Record.withDefault, Record.optional, text?,
        option?_operandToJson hinner, hi]
  · rfl
  · decide

/-- An operator takes two levels, whatever its operands take. -/
theorem readsWithin_of_operator {t : ParseTree} {deepest : Nat} (hnesting : t.nesting = 2 + deepest)
    (hnone : ofJson? 0 t.toJson = none ∧ ofJson? 1 t.toJson = none)
    (hread : ∀ rest, ofJson? (rest + 2) t.toJson = if deepest ≤ rest then some t else none) :
    t.ReadsWithin budget := by
  rw [ReadsWithin, hnesting]
  match budget with
  | 0 => rw [hnone.1, if_neg (by omega)]
  | 1 => rw [hnone.2, if_neg (by omega)]
  | rest + 2 =>
    rw [hread]
    exact if_congr (by omega) rfl rfl

end Reads

theorem readsWithin (t : ParseTree) (budget : Nat) : t.ReadsWithin budget := by
  induction t using ParseTree.induction generalizing budget with
  | step t ih =>
    cases t with
    | literal character => cases budget <;> simp [ReadsWithin, toJson, ofJson?, nesting]
    | or symbol name left right | concatenation symbol name left right =>
      refine readsWithin_of_operator rfl ⟨rfl, by simp [toJson, ofJson?, operatorFields]⟩ ?_
      intro rest
      refine Eq.trans ?_ (binaryOfJson?_fields symbol name
        (fun t ht => ih t (List.mem_append_left _ ht) rest)
        (fun t ht => ih t (List.mem_append_right _ ht) rest))
      simp [toJson, ofJson?, orName, concatenationName]
    | kleene symbol name inner =>
      refine readsWithin_of_operator rfl ⟨rfl, by simp [toJson, ofJson?, operatorFields]⟩ ?_
      intro rest
      rw [← unaryOfJson?_fields symbol name fun t ht => ih t ht rest]
      simp [toJson, ofJson?, orName, concatenationName, kleeneName]

/-- A tree reads back from its text, and from any other text of its JSON form, if it nests at most
127 levels deep; else it is refused. -/
theorem text_survives (t : ParseTree) :
    t.toJson.nesting = t.nesting ∧ Json.ofText? t.toText = some t.toJson ∧
      ∀ s, Json.ofText? s = some t.toJson →
        (t.nesting ≤ 127 → ofText s = .ok t) ∧
          (127 < t.nesting → ∃ problem, ofText s = .error problem) := by
  have hwritten : Json.ofText? t.toText = some t.toJson := by
    rw [toText, ofText?_toText, asRead_toJson]
  refine ⟨t.nesting_toJson, hwritten, fun s hs => ?_⟩
  have hread : ofText? s = if t.nesting ≤ 127 then some t else none := by
    rw [ofText?, hs]
    exact t.readsWithin 127
  constructor
  · intro hle
    rw [if_pos hle] at hread
    simp only [ofText, hread]
  · intro hlt
    rw [if_neg (by omega)] at hread
    simp only [ofText, hread, Except.error.injEq, exists_eq']

end ParseTree

end AutomatonSketch
