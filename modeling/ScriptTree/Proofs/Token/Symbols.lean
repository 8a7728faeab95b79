import Mathlib
import ScriptTree.Token.Lexer

/-! Symbols are read longest first.

What is written with symbols is read by its first character, and then by a list of continuations for
each. The table of all symbols, longer ones in front, does not know of these (`symbolTable`); still, its
first entry that fits a text is what is read (`ofSymbol?_eq_longest`), but for a question mark before a
point that opens a number (`ofSymbol?_question`). -/
namespace ScriptTree.Lexeme

/-! ### The table of symbols -/

/-- Everything that is written with symbols outside template text. -/
def symbols : List Lexeme :=
  (Operator.all.filter (!·.isWord)).map .operator ++
    (Punctuation.all.filter fun m =>
      m != .dollarBrace && m != .doubleQuote && m != .singleQuote).map .punctuation ++
    Operator.looseSpellings.map fun (spelling, strict) => .loose spelling strict

/-- The symbols with their texts, longer ones first: the first that fits is the longest. -/
def symbolTable : List (List Char × Lexeme) :=
  let withText := symbols.map fun l => (l.text, l)
  [4, 3, 2, 1].flatMap fun n => withText.filter (·.1.length == n)

/-- The longest symbol at the head of a text. -/
def longestSymbol? (cs : List Char) : Option Lexeme :=
  (symbolTable.find? fun entry => entry.1.isPrefixOf cs).map (·.2)

/-! ### By the first character -/

/-- The entries of a table that begin with a character, without it. -/
def behindHead (c : Char) (table : List (List Char × Lexeme)) : List (List Char × Lexeme) :=
  (table.filter (·.1.head? == some c)).map fun entry => (entry.1.tail, entry.2)

theorem find?_behindHead {table : List (List Char × Lexeme)} (h : ∀ entry ∈ table, entry.1 ≠ [])
    (c : Char) (cs : List Char) :
    (table.find? fun entry => entry.1.isPrefixOf (c :: cs)).map (·.2) =
      ((behindHead c table).find? fun entry => entry.1.isPrefixOf cs).map (·.2) := by
  induction table with
  | nil => rfl
  | cons entry table ih =>
    obtain ⟨hentry, htable⟩ := List.forall_mem_cons.mp h
    have ih := ih htable
    obtain ⟨_ | ⟨d, spelling⟩, l⟩ := entry
    · exact absurd rfl hentry
    by_cases hd : d = c
    · subst hd
      rw [behindHead, List.filter_cons_of_pos (by simp), List.map_cons, List.find?_cons, List.find?_cons]
      have hfits : (d :: spelling).isPrefixOf (d :: cs) = spelling.isPrefixOf cs := by
        simp [List.isPrefixOf]
      rw [hfits]
      dsimp only [List.tail_cons]
      split
      · rfl
      · exact ih
    · rw [behindHead, List.filter_cons_of_neg (by simpa using hd), List.find?_cons]
      have hfits : (d :: spelling).isPrefixOf (c :: cs) = false := by simp [List.isPrefixOf, hd]
      rw [hfits]
      exact ih

theorem nonempty_of_mem_symbolTable : ∀ entry ∈ symbolTable, entry.1 ≠ [] := by
  decide +kernel

theorem longestSymbol?_cons (c : Char) (cs : List Char) : longestSymbol? (c :: cs) =
    ((behindHead c symbolTable).find? fun entry => entry.1.isPrefixOf cs).map (·.2) :=
  find?_behindHead nonempty_of_mem_symbolTable c cs

/-- The first characters of symbols. -/
def symbolHeads : List Char := symbolTable.flatMap (·.1.take 1)

theorem longestSymbol?_eq_none {c : Char} (h : c ∉ symbolHeads) (cs : List Char) :
    longestSymbol? (c :: cs) = none := by
  have hnone : behindHead c symbolTable = [] := by
    rw [behindHead, List.map_eq_nil_iff, List.filter_eq_nil_iff]
    intro entry hentry hhead
    obtain ⟨spelling, hspelling⟩ := List.head?_eq_some_iff.mp (beq_iff_eq.mp hhead)
    exact h (List.mem_flatMap.mpr ⟨entry, hentry, by rw [hspelling]; exact List.mem_cons_self⟩)
  rw [longestSymbol?_cons, hnone]
  rfl

/-! ### The continuations agree with the table -/

section Continuations
variable {c : Char}

/-- A sign and its continuations, where these are what the table has behind it, in the same order. -/
theorem ofSign_eq {sign : Operator} {longer : List (String × Operator)}
    (h : behindHead c symbolTable =
      longer.map (fun entry => (entry.1.toList, .operator entry.2)) ++ [([], .operator sign)])
    (cs : List Char) : some (ofSign sign longer cs) = longestSymbol? (c :: cs) := by
  rw [longestSymbol?_cons, h]
  clear h
  induction longer with
  | nil => rfl
  | cons entry longer ih =>
    rw [ofSign] at ih ⊢
    rw [List.map_cons, List.cons_append, List.find?_cons, List.find?_cons]
    dsimp only
    cases entry.1.toList.isPrefixOf cs with
    | true => rfl
    | false => exact ih

/-- Of two continuations that never both fit, it does not matter which one is tried first. -/
theorem ofSign_swap {sign o o' : Operator} {rest rest' : String}
    (hapart : ∀ cs, rest.toList.isPrefixOf cs = true → rest'.toList.isPrefixOf cs = false)
    (cs : List Char) : ofSign sign [(rest, o), (rest', o')] cs =
      ofSign sign [(rest', o'), (rest, o)] cs := by
  simp only [ofSign, List.find?_cons, List.find?_nil]
  cases h : rest.toList.isPrefixOf cs with
  | true => rw [hapart cs h]
  | false => rfl

/-- No text goes on both with a sign and with an equals sign. -/
theorem not_equals_of_isPrefixOf {c : Char} (hc : c ≠ '=') (cs : List Char)
    (h : [c].isPrefixOf cs = true) : ['='].isPrefixOf cs = false := by
  cases cs with
  | nil => rfl
  | cons d cs =>
    obtain rfl : c = d := by simpa [List.isPrefixOf] using h
    simpa [List.isPrefixOf] using Ne.symm hc

/-- A symbol with no longer form. -/
theorem single_eq {l : Lexeme} (h : behindHead c symbolTable = [([], l)]) (cs : List Char) :
    some l = longestSymbol? (c :: cs) := by
  rw [longestSymbol?_cons, h]
  rfl

theorem ofEquals_eq (cs : List Char) : some (ofEquals cs) = longestSymbol? ('=' :: cs) := by
  have hbehind : behindHead '=' symbolTable = [(['=', '='], .operator .strictEqual),
      (['>'], .punctuation .fatArrow), (['='], .loose "==" .strictEqual), ([], .operator .assign)] := by
    decide +kernel
  rw [longestSymbol?_cons, hbehind]
  unfold ofEquals
  split
  · rename_i h
    rw [List.find?_cons_of_pos (by simpa using h)]
    rfl
  · rename_i h
    rw [List.find?_cons_of_neg (by simpa using h)]
    split
    · rfl
    · rfl
    · rename_i hequals hgreater
      cases cs with
      | nil => rfl
      | cons d cs =>
        have hequals : '=' ≠ d := fun h => hequals cs (h ▸ rfl)
        have hgreater : '>' ≠ d := fun h => hgreater cs (h ▸ rfl)
        simp [List.isPrefixOf, hequals, hgreater]

theorem ofExclamation_eq (cs : List Char) : some (ofExclamation cs) = longestSymbol? ('!' :: cs) := by
  have hbehind : behindHead '!' symbolTable = [(['=', '='], .operator .strictUnequal),
      (['='], .loose "!=" .strictUnequal), ([], .operator .logicalNot)] := by
    decide +kernel
  rw [longestSymbol?_cons, hbehind]
  unfold ofExclamation
  split
  · rename_i h
    rw [List.find?_cons_of_pos (by simpa using h)]
    rfl
  · rename_i h
    rw [List.find?_cons_of_neg (by simpa using h)]
    split
    · rfl
    · rename_i hequals
      cases cs with
      | nil => rfl
      | cons d cs =>
        have hequals : '=' ≠ d := fun h => hequals cs (h ▸ rfl)
        simp [List.isPrefixOf, hequals]

theorem ofQuestion_eq {cs : List Char}
    (h : ∀ rest, cs = '.' :: rest → rest.head?.any Char.isDigit = false) :
    some (ofQuestion cs) = longestSymbol? ('?' :: cs) := by
  have hbehind : behindHead '?' symbolTable = [(['?', '='], .operator .coalesceAssign),
      (['?'], .operator .coalesce), (['.'], .punctuation .questionDot),
      ([], .punctuation .question)] := by
    decide +kernel
  rw [longestSymbol?_cons, hbehind]
  unfold ofQuestion
  split
  · rename_i h
    rw [List.find?_cons_of_pos (by simpa using h)]
    rfl
  · rename_i hlong
    rw [List.find?_cons_of_neg (by simpa using hlong)]
    split
    · rfl
    · rw [h _ rfl]
      rfl
    · rename_i hquestion hpoint
      cases cs with
      | nil => rfl
      | cons d cs =>
        have hquestion : '?' ≠ d := fun h => hquestion cs (h ▸ rfl)
        have hpoint : '.' ≠ d := fun h => hpoint cs (h ▸ rfl)
        simp [List.isPrefixOf, hquestion, hpoint]

theorem ofPoint_eq (cs : List Char) : some (ofPoint cs) = longestSymbol? ('.' :: cs) := by
  have hbehind : behindHead '.' symbolTable = [(['.', '.'], .punctuation .ellipsis),
      (['.'], .punctuation .dotDot), ([], .punctuation .dot)] := by
    decide +kernel
  rw [longestSymbol?_cons, hbehind]
  unfold ofPoint
  split
  · rfl
  · rename_i cs hpoint
    cases cs with
    | nil => rfl
    | cons d cs =>
      have hpoint : '.' ≠ d := fun h => hpoint cs (h ▸ rfl)
      simp [List.isPrefixOf, hpoint]
  · rename_i _ hpoint
    cases cs with
    | nil => rfl
    | cons d cs =>
      have hpoint : '.' ≠ d := fun h => hpoint cs (h ▸ rfl)
      simp [List.isPrefixOf, hpoint]

end Continuations

/-- Whether a text is a question mark before a point that opens a number. -/
def digitAhead : List Char → Bool
  | '?' :: '.' :: d :: _ => d.isDigit
  | _ => false

theorem exists_of_digitAhead {cs : List Char} (h : digitAhead cs = true) :
    ∃ rest, cs = '?' :: '.' :: rest := by
  unfold digitAhead at h
  split at h
  · exact ⟨_, rfl⟩
  · cases h

theorem digitAhead_eq_false {cs : List Char} (h : ¬∃ rest, cs = '?' :: '.' :: rest) :
    digitAhead cs = false := by
  by_contra hahead
  exact h (exists_of_digitAhead (Bool.eq_true_of_not_eq_false hahead))

theorem digitAhead_point (cs : List Char) :
    digitAhead ('?' :: '.' :: cs) = cs.head?.any Char.isDigit := by
  cases cs <;> rfl

theorem ofSymbol?_question {cs : List Char} (h : digitAhead cs = true) :
    ofSymbol? cs = some (.punctuation .question) := by
  obtain ⟨rest, rfl⟩ := exists_of_digitAhead h
  rw [digitAhead_point] at h
  simp [ofSymbol?, ofQuestion, List.isPrefixOf, h]

/-- **What is written with symbols is read as long as it goes**, but for a question mark before a point
that opens a number. -/
theorem ofSymbol?_eq_longest {cs : List Char} (h : digitAhead cs = false) :
    ofSymbol? cs = longestSymbol? cs := by
  cases cs with
  | nil => decide +kernel
  | cons c cs =>
    unfold ofSymbol?
    dsimp only
    split
    · exact ofSign_eq (by decide +kernel) cs
    · exact ofSign_eq (by decide +kernel) cs
    · refine (congrArg some (@ofSign_swap _ _ _ "-" "=" ?_ cs)).trans (ofSign_eq (by decide +kernel) cs)
      exact not_equals_of_isPrefixOf (by decide)
    · refine (congrArg some (@ofSign_swap _ _ _ "+" "=" ?_ cs)).trans (ofSign_eq (by decide +kernel) cs)
      exact not_equals_of_isPrefixOf (by decide)
    · exact ofSign_eq (by decide +kernel) cs
    · exact ofSign_eq (by decide +kernel) cs
    · exact ofSign_eq (by decide +kernel) cs
    · exact single_eq (by decide +kernel) cs
    · exact ofSign_eq (by decide +kernel) cs
    · exact ofSign_eq (by decide +kernel) cs
    · exact ofSign_eq (by decide +kernel) cs
    · exact ofEquals_eq cs
    · exact ofExclamation_eq cs
    · refine ofQuestion_eq ?_
      rintro rest rfl
      cases rest with
      | nil => rfl
      | cons d rest => exact h
    · exact ofPoint_eq cs
    case h_28 =>
      refine (longestSymbol?_eq_none ?_ cs).symm
      have hheads : symbolHeads.dedup ⊆ ['/', '<', '-', '+', '*', '%', '^', '~', '&', '|', '>', '=', '!',
          '?', '.', ',', ';', ':', '#', '@', '(', ')', '[', ']', '\x7b', '\x7d', '\x60'] := by
        decide +kernel
      intro hmem
      have := hheads (List.mem_dedup.mpr hmem)
      simp_all
    all_goals exact single_eq (by decide +kernel) cs

end ScriptTree.Lexeme
