import AutomatonSketch.Json.Reader
import AutomatonSketch.Proofs.NumberText

/-! The text of a value reads back as that value, its numbers as they are read. The text is followed
token by token, and the tokens are then put together again. -/

namespace AutomatonSketch.Json

theorem induction {motive : Json → Prop} (null : motive .null) (bool : ∀ b, motive (.bool b))
    (number : ∀ n, motive (.number n)) (text : ∀ s, motive (.text s))
    (array : ∀ items, (∀ v ∈ items, motive v) → motive (.array items))
    (object : ∀ members, (∀ m ∈ members, motive m.2) → motive (.object members)) (v : Json) :
    motive v := by
  refine @Json.rec motive (fun items => ∀ v ∈ items, motive v)
    (fun members => ∀ m ∈ members, motive m.2) (fun m => motive m.2)
    null bool number text array object ?_ ?_ ?_ ?_ ?_ v
  · simp
  · intro v vs hv hvs w hw
    exact (List.mem_cons.mp hw).elim (fun h => h ▸ hv) (hvs w)
  · simp
  · intro m ms hm hms w hw
    exact (List.mem_cons.mp hw).elim (fun h => h ▸ hm) (hms w)
  · exact fun key v hv => hv

mutual

/-- The value that the text of a value is read as. -/
def asRead : Json → Json
  | .number n => .number n.asRead
  | .array items => .array (itemsAsRead items)
  | .object members => .object (membersAsRead members)
  | v => v

def itemsAsRead : List Json → List Json
  | [] => []
  | v :: rest => v.asRead :: itemsAsRead rest

def membersAsRead : List (String × Json) → List (String × Json)
  | [] => []
  | m :: rest => memberAsRead m :: membersAsRead rest

def memberAsRead : String × Json → String × Json
  | (key, v) => (key, v.asRead)

end

theorem itemsAsRead_eq_map (items : List Json) : itemsAsRead items = items.map asRead := by
  induction items with
  | nil => simp [itemsAsRead]
  | cons v rest ih => simp [itemsAsRead, ih]

theorem membersAsRead_eq_map (members : List (String × Json)) :
    membersAsRead members = members.map fun m => (m.1, m.2.asRead) := by
  induction members with
  | nil => simp [membersAsRead]
  | cons m rest ih =>
    obtain ⟨key, v⟩ := m
    simp [membersAsRead, memberAsRead, ih]

@[simp] theorem asRead_null : asRead .null = .null := by simp [asRead]

@[simp] theorem asRead_bool (b : Bool) : asRead (.bool b) = .bool b := by simp [asRead]

@[simp] theorem asRead_number (n : Number) : asRead (.number n) = .number n.asRead := by
  simp [asRead]

@[simp] theorem asRead_text (s : String) : asRead (.text s) = .text s := by simp [asRead]

@[simp] theorem asRead_array (items : List Json) :
    asRead (.array items) = .array (items.map asRead) := by
  rw [asRead, itemsAsRead_eq_map]

@[simp] theorem asRead_object (members : List (String × Json)) :
    asRead (.object members) = .object (members.map fun m => (m.1, m.2.asRead)) := by
  rw [asRead, membersAsRead_eq_map]

mutual

/-- The tokens of the text of a value. -/
def tokens : Json → List Token
  | .null => [.null]
  | .bool b => [.bool b]
  | .number n => [.number n.asRead]
  | .text s => [.text s]
  | .array [] => [.openArray, .closeArray]
  | .array (v :: vs) => .openArray :: (v.tokens ++ itemTokens vs ++ [.closeArray])
  | .object [] => [.openObject, .closeObject]
  | .object (m :: ms) => .openObject :: (memberTokens m ++ membersTokens ms ++ [.closeObject])

def itemTokens : List Json → List Token
  | [] => []
  | v :: vs => .comma :: (v.tokens ++ itemTokens vs)

def membersTokens : List (String × Json) → List Token
  | [] => []
  | m :: ms => .comma :: (memberTokens m ++ membersTokens ms)

def memberTokens : String × Json → List Token
  | (key, v) => .text key :: .colon :: v.tokens

end

namespace Token

/-- What can stand behind a word. -/
def Ends (rest : List Char) : Prop := ∀ c ∈ rest.head?, isWordChar c = false

theorem Ends.nil : Ends [] := by simp [Ends]

theorem Ends.cons {c : Char} (h : isWordChar c = false) (cs : List Char) : Ends (c :: cs) := by
  simpa [Ends] using h

theorem Ends.append {cs rest : List Char} (h : Ends cs) (h' : Ends rest) : Ends (cs ++ rest) := by
  cases cs with
  | nil => exact h'
  | cons c cs => exact .cons (h c rfl) _

/-- These characters are read as these tokens, whatever follows. -/
def Separates (cs : List Char) (ts : List Token) : Prop :=
  ∀ rest, run? .between (cs ++ rest) = (run? .between rest).map (ts ++ ·)

/-- These characters are read as these tokens if what follows ends a word. -/
def Emits (cs : List Char) (ts : List Token) : Prop :=
  ∀ rest, Ends rest → run? .between (cs ++ rest) = (run? .between rest).map (ts ++ ·)

theorem Separates.emits {cs : List Char} {ts : List Token} (h : Separates cs ts) : Emits cs ts :=
  fun rest _ => h rest

section Append

variable {cs cs' : List Char} {ts ts' : List Token}

theorem Separates.append (h : Separates cs ts) (h' : Separates cs' ts') :
    Separates (cs ++ cs') (ts ++ ts') := by
  intro rest
  rw [List.append_assoc, h, h', Option.map_map]
  simp [Function.comp_def]

theorem Separates.append_emits (h : Separates cs ts) (h' : Emits cs' ts') :
    Emits (cs ++ cs') (ts ++ ts') := by
  intro rest hrest
  rw [List.append_assoc, h, h' rest hrest, Option.map_map]
  simp [Function.comp_def]

theorem Emits.append (h : Emits cs ts) (hends : Ends cs') (h' : Emits cs' ts') :
    Emits (cs ++ cs') (ts ++ ts') := by
  intro rest hrest
  rw [List.append_assoc, h _ (hends.append hrest), h' rest hrest, Option.map_map]
  simp [Function.comp_def]

end Append

theorem Separates.nil : Separates [] [] := fun rest => by simp

theorem run?_cons (state : State) (c : Char) (cs : List Char) :
    run? state (c :: cs) = (step? state c).bind fun p => (run? p.2 cs).map (p.1 ++ ·) := by
  rw [run?]
  cases step? state c with
  | none => rfl
  | some p => cases hrun : run? p.2 cs <;> simp [hrun]

/-- A character that completes no token. -/
theorem run?_quiet {s t : State} {c : Char} (h : step? s c = some ([], t)) (cs : List Char) :
    run? s (c :: cs) = run? t cs := by
  simp [run?_cons, h]

theorem Separates.single {c : Char} {ts : List Token} (h : begin? c = some (ts, .between)) :
    Separates [c] ts := by
  intro rest
  rw [List.singleton_append, run?_cons, step?, h, Option.bind_some]

theorem separates_lineBreak (depth : Nat) : Separates (lineBreak depth) [] := by
  have hblanks (n : Nat) : Separates (List.replicate n ' ') [] := by
    induction n with
    | zero => exact .nil
    | succ n ih => exact (Separates.single (c := ' ') rfl).append ih
  exact (Separates.single (c := '\n') rfl).append (hblanks _)

section Words

theorem begin?_of_isWordChar {c : Char} (h : isWordChar c = true) :
    begin? c = some ([], .word [c]) := by
  have hne {x : Char} (hx : isWordChar x = false) : c ≠ x := by
    rintro rfl
    rw [h] at hx
    exact absurd hx (by decide)
  have hblank := hne (x := ' ') (by decide)
  have htab := hne (x := '\t') (by decide)
  have hline := hne (x := '\n') (by decide)
  have hreturn := hne (x := '\r') (by decide)
  have hquote := hne (x := '"') (by decide)
  have hopen := hne (x := '\x7b') (by decide)
  have hclose := hne (x := '\x7d') (by decide)
  have hopen' := hne (x := '[') (by decide)
  have hclose' := hne (x := ']') (by decide)
  have hcolon := hne (x := ':') (by decide)
  have hcomma := hne (x := ',') (by decide)
  simp [begin?, *]

theorem run?_word_end (read : List Char) {rest : List Char} (h : Ends rest) :
    run? (.word read) rest =
      (ofWord? read.reverse).bind fun t => (run? .between rest).map ([t] ++ ·) := by
  cases rest with
  | nil => cases hword : ofWord? read.reverse <;> simp [run?, finish?, hword]
  | cons c cs =>
    have hc : isWordChar c = false := h c rfl
    cases hword : ofWord? read.reverse with
    | none => simp [run?_cons, step?, hc, hword]
    | some t => cases hbegin : begin? c <;>
        simp [run?_cons, step?, hc, hword, hbegin, Function.comp_def]

theorem run?_word (read cs : List Char) {rest : List Char} (hcs : ∀ c ∈ cs, isWordChar c = true)
    (h : Ends rest) : run? (.word read) (cs ++ rest) =
      (ofWord? (read.reverse ++ cs)).bind fun t => (run? .between rest).map ([t] ++ ·) := by
  induction cs generalizing read with
  | nil => rw [List.nil_append, run?_word_end read h, List.append_nil]
  | cons c cs ih =>
    have hstep : step? (.word read) c = some ([], .word (c :: read)) :=
      if_pos (hcs c List.mem_cons_self)
    have hnext := ih (c :: read) fun x hx => hcs x (List.mem_cons_of_mem _ hx)
    rw [List.reverse_cons, List.append_assoc, List.singleton_append] at hnext
    rw [List.cons_append, run?_quiet hstep, hnext]

theorem emits_word {word : List Char} {t : Token} (hchars : word.all isWordChar = true)
    (hread : ofWord? word = some t) : Emits word [t] := by
  intro rest hrest
  rw [List.all_eq_true] at hchars
  cases word with
  | nil =>
    have hempty : ofWord? [] = none := by decide
    exact absurd (hempty.symm.trans hread) (by simp)
  | cons c cs =>
    have hstep : step? .between c = some ([], .word [c]) :=
      begin?_of_isWordChar (hchars c List.mem_cons_self)
    have hrun := run?_word [c] cs (fun x hx => hchars x (List.mem_cons_of_mem _ hx)) hrest
    rw [List.reverse_singleton, List.singleton_append, hread, Option.bind_some] at hrun
    rw [List.cons_append, run?_quiet hstep, hrun]

end Words

section Quoted

theorem hexValue?_hexDigit {n : Nat} (h : n < 16) : hexValue? (hexDigit n) = some n := by
  have hall : ∀ k < 16, hexValue? (hexDigit k) = some k := by decide
  exact hall n h

theorem run?_short {x y : Char} (hx : x ≠ 'u') (hy : escaped? x = some y) (read rest : List Char) :
    run? (.text read) ('\\' :: x :: rest) = run? (.text (y :: read)) rest := by
  have hstep : step? (.escape read) x = some ([], .text (y :: read)) := by simp [step?, hx, hy]
  exact (run?_quiet rfl _).trans (run?_quiet hstep rest)

theorem run?_unicode {c : Char} (hc : c.toNat < 0x20) (read rest : List Char) :
    run? (.text read) ('\\' :: 'u' :: '0' :: '0' :: hexDigit (c.toNat / 16) ::
      hexDigit (c.toNat % 16) :: rest) = run? (.text (c :: read)) rest := by
  have hhigh : step? (.unicode read none 2 0) (hexDigit (c.toNat / 16)) =
      some ([], .unicode read none 3 (c.toNat / 16)) := by
    have hvalue := hexValue?_hexDigit (n := c.toNat / 16) (by omega)
    simp [step?, hvalue]
  have hlow : step? (.unicode read none 3 (c.toNat / 16)) (hexDigit (c.toNat % 16)) =
      some ([], .text (c :: read)) := by
    have hvalue := hexValue?_hexDigit (n := c.toNat % 16) (by omega)
    have hsum : c.toNat / 16 * 16 + c.toNat % 16 = c.toNat := by omega
    have hunit : ofUnit? read none c.toNat = some (.text (c :: read)) := by
      have hbelow : ¬ 0xD800 ≤ c.toNat ∧ ¬ 0xDC00 ≤ c.toNat := by omega
      simp [ofUnit?, hbelow]
    simp [step?, hvalue, hsum, hunit]
  rw [run?_quiet (t := .escape read) rfl, run?_quiet (t := .unicode read none 0 0) rfl,
    run?_quiet (t := .unicode read none 1 0) rfl,
    run?_quiet (t := .unicode read none 2 0) rfl, run?_quiet hhigh, run?_quiet hlow]

/-- A character is read as it was, in whichever way it was escaped. -/
theorem run?_escapeChar (c : Char) (read rest : List Char) :
    run? (.text read) (escapeChar c ++ rest) = run? (.text (c :: read)) rest := by
  by_cases hquote : c = '"' ∨ c = '\\'
  · have hx : c ≠ 'u' := by rintro rfl; simp at hquote
    have hy : escaped? c = some c := if_pos (hquote.imp_right .inl)
    simpa [escapeChar, hquote] using run?_short hx hy read rest
  by_cases hback : c = '\x08'
  · subst hback; exact run?_short (by decide) rfl read rest
  by_cases hfeed : c = '\x0c'
  · subst hfeed; exact run?_short (by decide) rfl read rest
  by_cases hline : c = '\n'
  · subst hline; exact run?_short (by decide) rfl read rest
  by_cases hreturn : c = '\r'
  · subst hreturn; exact run?_short (by decide) rfl read rest
  by_cases htab : c = '\t'
  · subst htab; exact run?_short (by decide) rfl read rest
  by_cases hcontrol : c.toNat < 0x20
  · have hread := run?_unicode hcontrol read rest
    simpa [escapeChar, hquote, hback, hfeed, hline, hreturn, htab, hcontrol] using hread
  · obtain ⟨hne, hne'⟩ := not_or.mp hquote
    have hstep : step? (.text read) c = some ([], .text (c :: read)) := by
      simp [step?, hne, hne', hcontrol]
    simpa [escapeChar, hquote, hback, hfeed, hline, hreturn, htab, hcontrol] using
      run?_quiet hstep rest

theorem run?_text (cs read rest : List Char) :
    run? (.text read) (cs.flatMap escapeChar ++ '"' :: rest) =
      (run? .between rest).map ([.text (String.ofList (read.reverse ++ cs))] ++ ·) := by
  induction cs generalizing read with
  | nil => simp [run?_cons, step?]
  | cons c cs ih =>
    rw [List.flatMap_cons, List.append_assoc, run?_escapeChar, ih, List.reverse_cons,
      List.append_assoc, List.singleton_append]

theorem separates_quoted (s : String) : Separates (quoted s) [.text s] := by
  intro rest
  have hread := run?_text s.toList [] rest
  rw [List.reverse_nil, List.nil_append, String.ofList_toList] at hread
  rw [← hread, quoted, List.cons_append, List.append_assoc, List.singleton_append]
  exact run?_quiet rfl _

end Quoted

end Token

open Token

/-- How a value is written, at any depth. -/
def Written (v : Json) : Prop := ∀ depth, Emits (v.chars depth) v.tokens

theorem ends_itemChars (depth : Nat) (vs : List Json) : Ends (itemChars depth vs) := by
  cases vs with
  | nil => exact .nil
  | cons v vs =>
    rw [itemChars]
    exact .cons (by decide) _

theorem ends_membersChars (depth : Nat) (ms : List (String × Json)) :
    Ends (membersChars depth ms) := by
  cases ms with
  | nil => exact .nil
  | cons m ms =>
    rw [membersChars]
    exact .cons (by decide) _

theorem separates_comma (depth : Nat) : Separates (',' :: lineBreak depth) [.comma] :=
  (Separates.single (c := ',') rfl).append (separates_lineBreak depth)

theorem emits_itemChars {vs : List Json} (h : ∀ v ∈ vs, Written v) (depth : Nat) :
    Emits (itemChars depth vs) (itemTokens vs) := by
  induction vs with
  | nil => simpa [itemChars, itemTokens] using Separates.nil.emits
  | cons v vs ih =>
    have hv : Emits (v.chars depth) v.tokens := h v List.mem_cons_self depth
    have hvs := ih fun w hw => h w (List.mem_cons_of_mem _ hw)
    have hitem := (separates_comma depth).append_emits hv
    simpa [itemChars, itemTokens] using hitem.append (ends_itemChars depth vs) hvs

theorem emits_memberChars {m : String × Json} (h : Written m.2) (depth : Nat) :
    Emits (memberChars depth m) (memberTokens m) := by
  have hcolon : Separates [':', ' '] [.colon] :=
    (Separates.single (c := ':') rfl).append (Separates.single (c := ' ') rfl)
  obtain ⟨key, v⟩ := m
  simpa [memberChars, memberTokens] using
    ((separates_quoted key).append hcolon).append_emits (h depth)

theorem emits_membersChars {ms : List (String × Json)} (h : ∀ m ∈ ms, Written m.2) (depth : Nat) :
    Emits (membersChars depth ms) (membersTokens ms) := by
  induction ms with
  | nil => simpa [membersChars, membersTokens] using Separates.nil.emits
  | cons m ms ih =>
    have hms := ih fun w hw => h w (List.mem_cons_of_mem _ hw)
    have hmember := (separates_comma depth).append_emits
      (emits_memberChars (h m List.mem_cons_self) depth)
    simpa [membersChars, membersTokens] using hmember.append (ends_membersChars depth ms) hms

/-- What stands between two brackets, on lines of its own. -/
theorem emits_enclosed (opening closing : Char) {first last : Token}
    (hopen : begin? opening = some ([first], .between))
    (hclose : begin? closing = some ([last], .between)) {cs : List Char} {ts : List Token}
    (h : Emits cs ts) (depth : Nat) :
    Emits (opening :: lineBreak (depth + 1) ++ cs ++ lineBreak depth ++ [closing])
      (first :: (ts ++ [last])) := by
  have hbefore := (Separates.single hopen).append (separates_lineBreak (depth + 1))
  have hafter := (separates_lineBreak depth).append (Separates.single hclose)
  have hends : Ends (lineBreak depth ++ [closing]) := .cons (by decide) _
  simpa using (hbefore.append_emits h).append hends hafter.emits

theorem written (v : Json) : Written v := by
  have hnull : Emits ['n', 'u', 'l', 'l'] [.null] := emits_word (by decide) (by decide)
  have htrue : Emits ['t', 'r', 'u', 'e'] [.bool true] := emits_word (by decide) (by decide)
  have hfalse : Emits ['f', 'a', 'l', 's', 'e'] [.bool false] := emits_word (by decide) (by decide)
  induction v using Json.induction with
  | null =>
    intro depth
    simpa [chars, tokens] using hnull
  | bool b =>
    intro depth
    cases b with
    | true => simpa [chars, tokens] using htrue
    | false => simpa [chars, tokens] using hfalse
  | number n =>
    exact fun _ => emits_word (List.all_eq_true.mpr fun _ => Number.isWordChar_of_mem_numberChars)
      (Number.ofWord?_numberChars n)
  | text s => exact fun _ => (separates_quoted s).emits
  | array items ih =>
    intro depth
    cases items with
    | nil =>
      exact ((Separates.single (c := '[') rfl).append (Separates.single (c := ']') rfl)).emits
    | cons v vs =>
      have hvs := emits_itemChars (fun w hw => ih w (List.mem_cons_of_mem _ hw)) (depth + 1)
      have hitems := (ih v List.mem_cons_self (depth + 1)).append (ends_itemChars _ vs) hvs
      have hall := emits_enclosed '[' ']' rfl rfl hitems depth
      simpa [chars, tokens] using hall
  | object members ih =>
    intro depth
    cases members with
    | nil =>
      exact ((Separates.single (c := '\x7b') rfl).append (Separates.single (c := '\x7d') rfl)).emits
    | cons m ms =>
      have hms := emits_membersChars (fun w hw => ih w (List.mem_cons_of_mem _ hw)) (depth + 1)
      have hm := emits_memberChars (ih m List.mem_cons_self) (depth + 1)
      have hmembers := hm.append (ends_membersChars _ ms) hms
      have hall := emits_enclosed '\x7b' '\x7d' rfl rfl hmembers depth
      simpa [chars, tokens] using hall

theorem ofChars?_chars (v : Json) (depth : Nat) :
    Token.ofChars? (v.chars depth) = some v.tokens := by
  have hread := v.written depth [] .nil
  simpa [Token.ofChars?, run?, finish?] using hread

/-- How a value is put together again of its tokens, with enough fuel. -/
def Read (v : Json) : Prop := ∀ fuel rest, v.tokens.length ≤ fuel →
  value? fuel (v.tokens ++ rest) = some (v.asRead, rest)

theorem tokens_head (v : Json) : ∃ t ts, v.tokens = t :: ts ∧ t ≠ .closeArray := by
  cases v with
  | array items => cases items <;> simp [tokens]
  | object members => cases members <;> simp [tokens]
  | null | bool b | number n | text s => simp [tokens]

theorem items?_tokens {v : Json} {vs : List Json} (h : ∀ w ∈ v :: vs, Read w) (fuel : Nat)
    (rest : List Token) (hfuel : (v.tokens ++ itemTokens vs).length < fuel) :
    items? fuel (v.tokens ++ itemTokens vs ++ .closeArray :: rest) =
      some ((v :: vs).map asRead, rest) := by
  induction vs generalizing v fuel with
  | nil =>
    obtain ⟨fuel, rfl⟩ : ∃ k, fuel = k + 1 := ⟨fuel - 1, by omega⟩
    simp only [itemTokens, List.append_nil] at hfuel ⊢
    rw [items?, h v List.mem_cons_self fuel _ (by omega)]
    rfl
  | cons w ws ih =>
    obtain ⟨fuel, rfl⟩ : ∃ k, fuel = k + 1 := ⟨fuel - 1, by omega⟩
    simp only [itemTokens, List.length_append, List.length_cons] at hfuel ih
    have hlater := ih (fun x hx => h x (List.mem_cons_of_mem _ hx)) fuel (by omega)
    have hfirst := h v List.mem_cons_self fuel
      (.comma :: (w.tokens ++ itemTokens ws ++ .closeArray :: rest)) (by omega)
    simp only [itemTokens, List.append_assoc, List.cons_append] at hfirst hlater ⊢
    rw [items?, hfirst]
    simp [hlater]

theorem members?_tokens {m : String × Json} {ms : List (String × Json)}
    (h : ∀ w ∈ m :: ms, Read w.2) (fuel : Nat) (rest : List Token)
    (hfuel : (memberTokens m ++ membersTokens ms).length < fuel) :
    members? fuel (memberTokens m ++ membersTokens ms ++ .closeObject :: rest) =
      some ((m :: ms).map (fun m => (m.1, m.2.asRead)), rest) := by
  induction ms generalizing m fuel with
  | nil =>
    obtain ⟨fuel, rfl⟩ : ∃ k, fuel = k + 1 := ⟨fuel - 1, by omega⟩
    obtain ⟨key, v⟩ := m
    simp only [membersTokens, memberTokens, List.append_nil, List.length_cons] at hfuel ⊢
    have hv := h (key, v) List.mem_cons_self fuel (.closeObject :: rest) (by simp only; omega)
    simp only [List.cons_append, members?, hv]
    rfl
  | cons w ws ih =>
    obtain ⟨fuel, rfl⟩ : ∃ k, fuel = k + 1 := ⟨fuel - 1, by omega⟩
    obtain ⟨key, v⟩ := m
    simp only [membersTokens, memberTokens, List.length_append, List.length_cons] at hfuel ih
    have hlater := ih (m := w) (fun x hx => h x (List.mem_cons_of_mem _ hx)) fuel (by omega)
    have hfirst := h (key, v) List.mem_cons_self fuel
      (.comma :: (memberTokens w ++ membersTokens ws ++ .closeObject :: rest)) (by simp only; omega)
    simp only [memberTokens, membersTokens, List.append_assoc, List.cons_append] at hfirst hlater ⊢
    rw [members?, hfirst]
    simp [hlater]

theorem value?_openArray (fuel : Nat) (ts : List Token) (h : ∀ rest, ts ≠ .closeArray :: rest) :
    value? (fuel + 1) (.openArray :: ts) =
      (items? fuel ts).map fun (items, rest) => (.array items, rest) := by
  rw [value?]
  exact h

theorem value?_openObject (fuel : Nat) (ts : List Token) (h : ∀ rest, ts ≠ .closeObject :: rest) :
    value? (fuel + 1) (.openObject :: ts) =
      (members? fuel ts).map fun (members, rest) => (.object members, rest) := by
  rw [value?]
  exact h

theorem read (v : Json) : Read v := by
  have hpositive {v : Json} {fuel : Nat} (h : v.tokens.length ≤ fuel) : ∃ k, fuel = k + 1 := by
    obtain ⟨t, ts, hts, -⟩ := v.tokens_head
    rw [hts, List.length_cons] at h
    exact ⟨fuel - 1, by omega⟩
  induction v using Json.induction with
  | null | bool b | number n | text s =>
    intro fuel rest hfuel
    obtain ⟨fuel, rfl⟩ := hpositive hfuel
    simp [tokens, value?]
  | array items ih =>
    intro fuel rest hfuel
    obtain ⟨fuel, rfl⟩ := hpositive hfuel
    cases items with
    | nil => simp [tokens, value?]
    | cons v vs =>
      obtain ⟨t, ts, hts, hne⟩ := v.tokens_head
      simp only [tokens, List.length_cons, List.length_append, List.length_nil] at hfuel
      have hitems := items?_tokens ih fuel rest (by rw [List.length_append]; omega)
      have hstart : ∀ later, v.tokens ++ itemTokens vs ++ .closeArray :: rest ≠
          .closeArray :: later := by
        intro later hlater
        rw [hts] at hlater
        exact hne (List.cons.inj hlater).1
      have hopen := value?_openArray fuel _ hstart
      rw [hitems] at hopen
      simpa [tokens] using hopen
  | object members ih =>
    intro fuel rest hfuel
    obtain ⟨fuel, rfl⟩ := hpositive hfuel
    cases members with
    | nil => simp [tokens, value?]
    | cons m ms =>
      simp only [tokens, List.length_cons, List.length_append, List.length_nil] at hfuel
      have hmembers := members?_tokens ih fuel rest (by rw [List.length_append]; omega)
      have hstart : ∀ later, memberTokens m ++ membersTokens ms ++ .closeObject :: rest ≠
          .closeObject :: later := by
        obtain ⟨key, v⟩ := m
        simp [memberTokens]
      have hopen := value?_openObject fuel _ hstart
      rw [hmembers] at hopen
      simpa [tokens] using hopen

/-- What is written reads back. -/
theorem ofText?_toText (v : Json) : ofText? v.toText = some v.asRead := by
  have hread := v.read (v.tokens.length + 1) [] (by omega)
  rw [List.append_nil] at hread
  rw [ofText?, toText, String.toList_ofList, ofChars?_chars, Option.bind_some, ofTokens?, hread]

end AutomatonSketch.Json
