import Mathlib
import ScriptTree.Text.JsonValue

/-! Reading JSON.

`JsonValue.read?` takes a whole text or nothing. It allows no blank between tokens, no comma behind
the last item, no zero in front of other digits and no bare control character in a string, and it
knows every escape, also of a character that takes two of them; so what it takes is a compact JSON
text. The length of a text bounds the steps of reading it: an item takes a character with it, and a
container two.

What is read from a text is read from it wherever it stands (`denotes_of_read?`). So texts of which nothing
is known but that they are read back can be put together to those of arrays and objects (`Denotes.array`,
`Denotes.object`), which is how the compact text of every value is read as that value
(`compact_denotes`). -/
namespace ScriptTree.JsonValue

/-! ### Strings -/

def hexDigit? (c : Char) : Option Nat :=
  if c.isDigit then some (c.toNat - 48)
  else if 'a' ≤ c ∧ c ≤ 'f' then some (c.toNat - 87)
  else if 'A' ≤ c ∧ c ≤ 'F' then some (c.toNat - 55)
  else none

/-- Four hexadecimal digits. -/
def readUnit : List Char → Option (Nat × List Char)
  | a :: b :: c :: d :: rest => do
    return (4096 * (← hexDigit? a) + 256 * (← hexDigit? b) + 16 * (← hexDigit? c) + (← hexDigit? d),
      rest)
  | _ => none

/-- The character of an escape of one letter. -/
def escaped? (c : Char) : Option Char :=
  if c == '\x22' || c == '\\' || c == '/' then some c
  else if c == 'b' then some '\x08'
  else if c == 'f' then some '\x0C'
  else if c == 'n' then some '\n'
  else if c == 'r' then some '\r'
  else if c == 't' then some '\t'
  else none

/-- The second unit of a character that takes two, and the character. -/
def readSecond (unit : Nat) : List Char → Option (Char × List Char)
  | '\\' :: 'u' :: rest => do
    let (second, rest) ← readUnit rest
    if 0xDC00 ≤ second ∧ second ≤ 0xDFFF then
      return (.ofNat (0x10000 + 0x400 * (unit - 0xD800) + (second - 0xDC00)), rest)
    else none
  | _ => none

/-- What follows a backslash. A unit from D800 to DBFF is the first of two; one from DC00 to DFFF
can only be the second. -/
def readEscape : List Char → Option (Char × List Char)
  | [] => none
  | 'u' :: rest => do
    let (unit, rest) ← readUnit rest
    if unit < 0xD800 ∨ 0xDFFF < unit then return (.ofNat unit, rest)
    else if 0xDBFF < unit then none
    else readSecond unit rest
  | c :: rest => (escaped? c).map (·, rest)

/-- One character of a string. -/
def readChar : List Char → Option (Char × List Char)
  | [] => none
  | c :: rest =>
    if c == '\\' then readEscape rest
    else if c.toNat < 0x20 || c == '\x22' then none
    else some (c, rest)

/-- The characters of a string up to the quote that ends it, and what is behind the quote. -/
def readText : Nat → List Char → Option (List Char × List Char)
  | 0, _ => none
  | steps + 1, cs =>
    if cs.head? == some '\x22' then some ([], cs.tail)
    else do
      let (c, rest) ← readChar cs
      let (text, rest) ← readText steps rest
      return (c :: text, rest)

/-! ### Values -/

/-- A number without a sign. -/
def readNumber (cs : List Char) : Option (JsonValue × List Char) :=
  let digits := cs.takeWhile Char.isDigit
  if digits.isEmpty || (digits.head? == some '0' && 1 < digits.length) then none
  else some (.number (Nat.ofDigitChars 10 digits 0), cs.drop digits.length)

/-- A truth value. -/
def readWord (cs : List Char) : Option (JsonValue × List Char) :=
  if "true".toList.isPrefixOf cs then some (.bool true, cs.drop 4)
  else if "false".toList.isPrefixOf cs then some (.bool false, cs.drop 5)
  else none

mutual

def readValue : Nat → List Char → Option (JsonValue × List Char)
  | 0, _ => none
  | _, [] => none
  | steps + 1, c :: rest =>
    if c == '[' then
      if rest.head? == some ']' then some (.array [], rest.tail)
      else (readItems steps rest).map fun (items, rest) => (.array items, rest)
    else if c == '\x7b' then
      if rest.head? == some '\x7d' then some (.object [], rest.tail)
      else (readMembers steps rest).map fun (members, rest) => (.object members, rest)
    else if c == '\x22' then
      (readText steps rest).map fun (text, rest) => (.string (.ofList text), rest)
    else if c.isDigit then readNumber (c :: rest)
    else readWord (c :: rest)

/-- The items of an array, at least one, and the bracket behind them. -/
def readItems : Nat → List Char → Option (List JsonValue × List Char)
  | 0, _ => none
  | steps + 1, cs => do
    let (item, rest) ← readValue steps cs
    match rest with
    | ']' :: rest => return ([item], rest)
    | ',' :: rest =>
      let (items, rest) ← readItems steps rest
      return (item :: items, rest)
    | _ => none

/-- The members of an object, at least one, and the brace behind them. -/
def readMembers : Nat → List Char → Option (List (String × JsonValue) × List Char)
  | 0, _ => none
  | _, [] => none
  | steps + 1, c :: rest =>
    if c == '\x22' then do
      let (name, rest) ← readText steps rest
      if rest.head? != some ':' then none
      else
        let (value, rest) ← readValue steps rest.tail
        match rest with
        | '\x7d' :: rest => return ([(.ofList name, value)], rest)
        | ',' :: rest =>
          let (members, rest) ← readMembers steps rest
          return ((.ofList name, value) :: members, rest)
        | _ => none
    else none

end

/-- The value of a text that holds one compact JSON value and nothing else. -/
def read? (text : String) : Option JsonValue :=
  match readValue text.length text.toList with
  | some (value, []) => some value
  | _ => none

/-! ### What follows a text -/

/-- Whether what follows a text does not go on with a number in it. -/
def Parts (rest : List Char) : Prop := ∀ c ∈ rest.head?, c.isDigit = false

theorem Parts.cons {c : Char} {rest : List Char} (h : c.isDigit = false) : Parts (c :: rest) := by
  intro d hd
  rwa [← Option.some.inj hd]

section Following
variable {cs r : List Char} {steps steps' : Nat} (rest : List Char)

theorem readUnit_append {n : Nat} (h : readUnit cs = some (n, r)) :
    readUnit (cs ++ rest) = some (n, r ++ rest) := by
  match cs with
  | a :: b :: c :: d :: cs =>
    simp only [readUnit, List.cons_append, Option.bind_eq_bind, Option.bind_eq_some_iff, Option.pure_def,
      Option.some.injEq, Prod.mk.injEq] at h ⊢
    obtain ⟨a', ha, b', hb, c', hc, d', hd, rfl, rfl⟩ := h
    exact ⟨a', ha, b', hb, c', hc, d', hd, rfl, rfl⟩

theorem readSecond_append {unit : Nat} {c : Char} (h : readSecond unit cs = some (c, r)) :
    readSecond unit (cs ++ rest) = some (c, r ++ rest) := by
  unfold readSecond at h
  split at h
  case h_1 cs =>
    obtain ⟨⟨second, after⟩, hsecond, h⟩ := Option.bind_eq_some_iff.mp h
    show (readUnit (cs ++ rest)).bind _ = _
    rw [readUnit_append rest hsecond, Option.bind_some]
    dsimp only at h ⊢
    split at h
    case isTrue hrange =>
      obtain ⟨rfl, rfl⟩ := Prod.mk.inj (Option.some.inj h)
      rw [if_pos hrange]
      rfl
    case isFalse => cases h
  case h_2 => cases h

theorem readEscape_append {c : Char} (h : readEscape cs = some (c, r)) :
    readEscape (cs ++ rest) = some (c, r ++ rest) := by
  fun_cases readEscape cs with
  | case1 => cases h
  | case2 cs =>
    obtain ⟨⟨unit, after⟩, hunit, h⟩ := Option.bind_eq_some_iff.mp h
    rw [List.cons_append, readEscape, readUnit_append rest hunit, Option.bind_eq_bind, Option.bind_some]
    dsimp only at h ⊢
    split at h
    case isTrue hplain =>
      cases h
      rw [if_pos hplain]
      rfl
    case isFalse hpair =>
      split at h
      case isTrue => cases h
      case isFalse hfirst =>
        rw [if_neg hpair, if_neg hfirst]
        exact readSecond_append rest h
  | case3 d cs hd =>
    rw [readEscape.eq_3 _ _ hd] at h
    rw [List.cons_append, readEscape.eq_3 _ _ hd]
    obtain ⟨e, he, h⟩ := Option.map_eq_some_iff.mp h
    cases h
    rw [he]
    rfl

theorem readChar_append {c : Char} (h : readChar cs = some (c, r)) :
    readChar (cs ++ rest) = some (c, r ++ rest) := by
  cases cs with
  | nil => cases h
  | cons d cs =>
    rw [readChar] at h
    rw [List.cons_append, readChar]
    split
    case isTrue hd =>
      rw [if_pos hd] at h
      exact readEscape_append rest h
    case isFalse hd =>
      rw [if_neg hd] at h
      split
      case isTrue hend =>
        rw [if_pos hend] at h
        cases h
      case isFalse hend =>
        rw [if_neg hend] at h
        cases h
        rfl

/-- A string is read in the same way whatever follows it. -/
theorem readText_append {text : List Char} (hle : steps ≤ steps') (h : readText steps cs = some (text, r)) :
    readText steps' (cs ++ rest) = some (text, r ++ rest) := by
  induction steps generalizing steps' cs text with
  | zero => cases h
  | succ steps ih =>
    obtain ⟨steps', rfl⟩ : ∃ n, steps' = n + 1 := ⟨steps' - 1, by omega⟩
    cases cs with
    | nil => cases h
    | cons c cs =>
      rw [readText] at h
      rw [List.cons_append, readText]
      by_cases hend : c = '\x22'
      · rw [hend, if_pos (by rfl)] at h ⊢
        cases h
        rfl
      · have hgoes (cs : List Char) : ¬((c :: cs).head? == some '\x22') = true := by simpa using hend
        rw [if_neg (hgoes _)] at h ⊢
        obtain ⟨⟨d, cs'⟩, hchar, h⟩ := Option.bind_eq_some_iff.mp h
        obtain ⟨⟨text', r'⟩, htext, h⟩ := Option.bind_eq_some_iff.mp h
        cases h
        have hchar' := readChar_append rest hchar
        rw [List.cons_append] at hchar'
        rw [hchar', Option.bind_eq_bind, Option.bind_some]
        dsimp only
        rw [ih (by omega) htext]
        rfl

/-- A number is read in the same way if what follows is no digit of it. -/
theorem readNumber_append {value : JsonValue} (h : readNumber cs = some (value, r))
    (hrest : r ≠ [] ∨ Parts rest) : readNumber (cs ++ rest) = some (value, r ++ rest) := by
  rw [readNumber] at h
  split at h
  case isTrue => cases h
  case isFalse hproper =>
    obtain ⟨rfl, rfl⟩ := Prod.mk.inj (Option.some.inj h)
    have hlength : (cs.takeWhile Char.isDigit).length ≤ cs.length := (List.takeWhile_prefix _).length_le
    have hdigits : (cs ++ rest).takeWhile Char.isDigit = cs.takeWhile Char.isDigit := by
      rw [List.takeWhile_append]
      split
      case isFalse => rfl
      case isTrue hall =>
        have hparts : Parts rest := hrest.resolve_left fun hne => hne (by rw [hall, List.drop_length])
        have hnone : rest.takeWhile Char.isDigit = [] := by
          cases rest with
          | nil => rfl
          | cons c rest => simp [hparts c rfl]
        rw [hnone, List.append_nil, (List.takeWhile_prefix _).eq_of_length hall]
    rw [readNumber, hdigits, if_neg hproper, List.drop_append_of_le_length hlength]

theorem readWord_append {value : JsonValue} (h : readWord cs = some (value, r)) :
    readWord (cs ++ rest) = some (value, r ++ rest) := by
  rw [readWord] at h
  split at h
  case isTrue hword =>
    obtain ⟨after, rfl⟩ := List.isPrefixOf_iff_prefix.mp hword
    cases h
    rfl
  case isFalse =>
    split at h
    case isTrue hword =>
      obtain ⟨after, rfl⟩ := List.isPrefixOf_iff_prefix.mp hword
      cases h
      rfl
    case isFalse => cases h

theorem readItems_nil : readItems steps [] = none := by
  cases steps with
  | zero => rfl
  | succ steps =>
    have hnone : readValue steps [] = none := by cases steps <;> rfl
    rw [readItems, hnone]
    rfl

theorem readMembers_nil : readMembers steps [] = none := by
  cases steps <;> rfl

/-- A container that may be empty. -/
theorem container_append {α : Type} {closing : Char} {empty value : JsonValue} {wrap : α → JsonValue}
    {read read' : List Char → Option (α × List Char)} (hnil : read [] = none)
    (hread : ∀ a, read cs = some (a, r) → read' (cs ++ rest) = some (a, r ++ rest))
    (h : (if cs.head? == some closing then some (empty, cs.tail)
      else (read cs).map fun (a, rest) => (wrap a, rest)) = some (value, r)) :
    (if (cs ++ rest).head? == some closing then some (empty, (cs ++ rest).tail)
      else (read' (cs ++ rest)).map fun (a, rest) => (wrap a, rest)) = some (value, r ++ rest) := by
  cases cs with
  | nil =>
    rw [hnil] at h
    cases h
  | cons c cs =>
    rw [List.cons_append, List.head?_cons, List.tail_cons]
    rw [List.head?_cons, List.tail_cons] at h
    split at h
    case isTrue hclosing =>
      cases h
      rw [if_pos hclosing]
    case isFalse hmore =>
      obtain ⟨⟨a, after⟩, ha, h⟩ := Option.map_eq_some_iff.mp h
      cases h
      rw [if_neg hmore, ← List.cons_append, hread a ha]
      rfl

end Following

mutual

/-- A value is read in the same way whatever follows it, if that does not go on with a number. -/
theorem readValue_append {steps steps' : Nat} {cs r rest : List Char} {value : JsonValue}
    (hle : steps ≤ steps') (h : readValue steps cs = some (value, r)) (hrest : r ≠ [] ∨ Parts rest) :
    readValue steps' (cs ++ rest) = some (value, r ++ rest) := by
  cases steps with
  | zero => cases h
  | succ steps =>
    obtain ⟨steps', rfl⟩ : ∃ n, steps' = n + 1 := ⟨steps' - 1, by omega⟩
    have hle : steps ≤ steps' := by omega
    cases cs with
    | nil => cases h
    | cons c cs =>
      rw [readValue] at h
      rw [List.cons_append, readValue]
      by_cases hbracket : c = '['
      · rw [if_pos (beq_iff_eq.mpr hbracket)] at h ⊢
        exact container_append rest readItems_nil (fun items hitems => readItems_append hle hitems) h
      rw [if_neg (by simpa using hbracket)] at h ⊢
      by_cases hbrace : c = '\x7b'
      · rw [if_pos (beq_iff_eq.mpr hbrace)] at h ⊢
        exact container_append rest readMembers_nil (fun members hmembers => readMembers_append hle hmembers) h
      rw [if_neg (by simpa using hbrace)] at h ⊢
      by_cases hquote : c = '\x22'
      · rw [if_pos (beq_iff_eq.mpr hquote)] at h ⊢
        obtain ⟨⟨text, after⟩, htext, h⟩ := Option.map_eq_some_iff.mp h
        cases h
        rw [readText_append rest hle htext]
        rfl
      rw [if_neg (by simpa using hquote)] at h ⊢
      by_cases hdigit : c.isDigit = true
      · rw [if_pos hdigit] at h ⊢
        exact readNumber_append rest h hrest
      · rw [if_neg hdigit] at h ⊢
        exact readWord_append rest h

theorem readItems_append {steps steps' : Nat} {cs r rest : List Char} {items : List JsonValue}
    (hle : steps ≤ steps') (h : readItems steps cs = some (items, r)) :
    readItems steps' (cs ++ rest) = some (items, r ++ rest) := by
  cases steps with
  | zero => cases h
  | succ steps =>
    obtain ⟨steps', rfl⟩ : ∃ n, steps' = n + 1 := ⟨steps' - 1, by omega⟩
    have hle : steps ≤ steps' := by omega
    rw [readItems] at h ⊢
    obtain ⟨⟨item, after⟩, hitem, h⟩ := Option.bind_eq_some_iff.mp h
    dsimp only at h
    split at h
    case h_1 =>
      cases h
      rw [readValue_append hle hitem (.inl (List.cons_ne_nil _ _))]
      rfl
    case h_2 =>
      obtain ⟨⟨items', after⟩, hitems, h⟩ := Option.bind_eq_some_iff.mp h
      cases h
      rw [readValue_append hle hitem (.inl (List.cons_ne_nil _ _)), Option.bind_eq_bind, Option.bind_some]
      show (readItems steps' (_ ++ rest)).bind _ = _
      rw [readItems_append hle hitems]
      rfl
    case h_3 => cases h

theorem readMembers_append {steps steps' : Nat} {cs r rest : List Char} {members : List (String × JsonValue)}
    (hle : steps ≤ steps') (h : readMembers steps cs = some (members, r)) :
    readMembers steps' (cs ++ rest) = some (members, r ++ rest) := by
  cases steps with
  | zero => cases h
  | succ steps =>
    obtain ⟨steps', rfl⟩ : ∃ n, steps' = n + 1 := ⟨steps' - 1, by omega⟩
    have hle : steps ≤ steps' := by omega
    cases cs with
    | nil => cases h
    | cons c cs =>
      rw [readMembers] at h
      rw [List.cons_append, readMembers]
      by_cases hquote : c = '\x22'
      swap
      · rw [if_neg (by simpa using hquote)] at h
        cases h
      rw [if_pos (beq_iff_eq.mpr hquote)] at h ⊢
      obtain ⟨⟨name, behind⟩, hname, h⟩ := Option.bind_eq_some_iff.mp h
      rw [readText_append rest hle hname, Option.bind_eq_bind, Option.bind_some]
      cases behind with
      | nil => cases h
      | cons colon behind =>
        dsimp only at h ⊢
        rw [List.head?_cons, List.tail_cons] at h
        rw [List.cons_append, List.head?_cons, List.tail_cons]
        by_cases hcolon : (some colon != some ':') = true
        · rw [if_pos hcolon] at h
          cases h
        · rw [if_neg hcolon] at h ⊢
          obtain ⟨⟨value, after⟩, hvalue, h⟩ := Option.bind_eq_some_iff.mp h
          dsimp only at h
          split at h
          case h_1 =>
            cases h
            rw [readValue_append hle hvalue (.inl (List.cons_ne_nil _ _))]
            rfl
          case h_2 =>
            obtain ⟨⟨members', after⟩, hmembers, h⟩ := Option.bind_eq_some_iff.mp h
            cases h
            rw [readValue_append hle hvalue (.inl (List.cons_ne_nil _ _)), Option.bind_eq_bind,
              Option.bind_some]
            show (readMembers steps' (_ ++ rest)).bind _ = _
            rw [readMembers_append hle hmembers]
            rfl
          case h_3 => cases h

end

/-! ### Strings that have been written -/

theorem toList_fourDigits {n : Nat} (h : n < 0x20) :
    (fourDigits n).toList = ['0', '0', Nat.digitChar (n / 16), Nat.digitChar (n % 16)] := by
  have hall : ∀ n < 0x20, (fourDigits n).toList =
      ['0', '0', Nat.digitChar (n / 16), Nat.digitChar (n % 16)] := by decide
  exact hall n h

theorem hexDigit?_digitChar {n : Nat} (h : n < 16) : hexDigit? (Nat.digitChar n) = some n := by
  have hall : ∀ n < 16, hexDigit? (Nat.digitChar n) = some n := by decide
  exact hall n h

theorem readUnit_fourDigits {n : Nat} (h : n < 0x20) (rest : List Char) :
    readUnit ((fourDigits n).toList ++ rest) = some (n, rest) := by
  have hzero : hexDigit? '0' = some 0 := by decide
  rw [toList_fourDigits h, List.cons_append, List.cons_append, List.cons_append, List.cons_append,
    List.nil_append, readUnit, hzero, hexDigit?_digitChar (by omega), hexDigit?_digitChar (by omega)]
  simp only [Option.bind_eq_bind, Option.bind_some, Option.pure_def]
  congr 2
  omega

/-- An escaped character is read as itself, and does not look like the end of its string. -/
theorem readChar_escape (c : Char) (rest : List Char) :
    readChar ((escape c).toList ++ rest) = some (c, rest) ∧
      ((escape c).toList ++ rest).head? ≠ some '\x22' := by
  by_cases hshort : c ∈ ['\x22', '\\', '\x08', '\x0C', '\n', '\r', '\t']
  · simp only [List.mem_cons, List.not_mem_nil, or_false] at hshort
    rcases hshort with rfl | rfl | rfl | rfl | rfl | rfl | rfl <;> exact ⟨rfl, nofun⟩
  · simp only [List.mem_cons, List.not_mem_nil, or_false, not_or] at hshort
    obtain ⟨hquote, hbackslash, hb, hf, hn, hr, ht⟩ := hshort
    rw [escape]
    simp only [beq_iff_eq, hquote, hbackslash, hb, hf, hn, hr, ht, if_false]
    by_cases hcontrol : c.toNat < 0x20
    · have hunit : c.toNat < 0xD800 ∨ 0xDFFF < c.toNat := .inl (by omega)
      rw [if_pos hcontrol, String.toList_append, List.append_assoc]
      refine ⟨?_, nofun⟩
      show readEscape ('u' :: ((fourDigits c.toNat).toList ++ rest)) = _
      simp only [readEscape, readUnit_fourDigits hcontrol, Option.bind_eq_bind, Option.bind_some,
        if_pos hunit, Char.ofNat_toNat, Option.pure_def]
    · rw [if_neg hcontrol, Char.toString_eq_singleton, String.toList_singleton,
        List.singleton_append]
      refine ⟨?_, by simpa using hquote⟩
      rw [readChar]
      simp [hquote, hbackslash, Nat.not_lt.mp hcontrol]

theorem readText_escaped {steps : Nat} {text : List Char} (h : text.length < steps)
    (rest : List Char) : readText steps ((text.flatMap fun c => (escape c).toList) ++ '\x22' :: rest) =
      some (text, rest) := by
  induction text generalizing steps with
  | nil =>
    obtain ⟨steps, rfl⟩ := Nat.exists_eq_succ_of_ne_zero (Nat.ne_of_gt h)
    rfl
  | cons c text ih =>
    obtain ⟨steps, rfl⟩ := Nat.exists_eq_succ_of_ne_zero (Nat.ne_zero_of_lt h)
    obtain ⟨hchar, hhead⟩ :=
      readChar_escape c ((text.flatMap fun c => (escape c).toList) ++ '\x22' :: rest)
    rw [List.flatMap_cons, List.append_assoc, readText, if_neg (by simpa using hhead), hchar]
    simp only [Option.bind_eq_bind, Option.bind_some, ih (Nat.lt_of_succ_lt_succ h), Option.pure_def]

theorem toList_quote (text : String) : (quote text).toList =
    '\x22' :: ((text.toList.flatMap fun c => (escape c).toList) ++ ['\x22']) := by
  have hfold (cs : List Char) (written : String) :
      (cs.foldl (fun written c => written ++ escape c) written).toList =
        written.toList ++ cs.flatMap fun c => (escape c).toList := by
    induction cs generalizing written with
    | nil => simp
    | cons c cs ih =>
      rw [List.foldl_cons, ih, String.toList_append, List.flatMap_cons, List.append_assoc]
  rw [quote, String.toList_append, String.toList_append, String.foldl_eq_foldl_toList, hfold]
  rfl

/-- What is between the quotes is not shorter than the text. -/
theorem length_le_escaped (text : List Char) :
    text.length ≤ (text.flatMap fun c => (escape c).toList).length := by
  induction text with
  | nil => exact Nat.le_refl _
  | cons c text ih =>
    have hpos : 0 < (escape c).toList.length := by
      by_contra hzero
      have hnil := List.length_eq_zero_iff.mp (Nat.eq_zero_of_not_pos hzero)
      have := (readChar_escape c []).1
      rw [hnil] at this
      cases this
    rw [List.flatMap_cons, List.length_append, List.length_cons]
    omega

/-! ### Numbers that have been written -/

/-- A number starts with a digit. -/
theorem toList_toString (n : Nat) :
    ∃ c cs, (toString n).toList = c :: cs ∧ c.isDigit = true := by
  rw [Nat.toString_eq_ofList_toDigits, String.toList_ofList]
  obtain ⟨c, cs, hcs⟩ := List.exists_cons_of_ne_nil (@Nat.toDigits_ne_nil n 10)
  exact ⟨c, cs, hcs,
    Nat.isDigit_of_mem_toDigits (by decide) (by decide) (hcs ▸ List.mem_cons_self)⟩

theorem head_toDigits {n : Nat} (h : 0 < n) : (Nat.toDigits 10 n).head? ≠ some '0' := by
  induction n using Nat.strong_induction_on with
  | _ n ih =>
    rcases Nat.lt_or_ge n 10 with hlt | hge
    · rw [Nat.toDigits_of_lt_base hlt]
      have hall : ∀ n < 10, 0 < n → [Nat.digitChar n].head? ≠ some '0' := by decide
      exact hall n hlt h
    · rw [Nat.toDigits_of_base_le (by decide) hge, List.head?_append]
      have hpos : 0 < n / 10 := Nat.div_pos hge (by decide)
      have := ih (n / 10) (by omega) hpos
      cases hhead : (Nat.toDigits 10 (n / 10)).head? with
      | none => exact absurd (List.head?_eq_none_iff.mp hhead) Nat.toDigits_ne_nil
      | some c => rwa [hhead] at this

theorem readNumber_toString (n : Nat) {rest : List Char}
    (hrest : ∀ c ∈ rest.head?, c.isDigit = false) :
    readNumber ((toString n).toList ++ rest) = some (.number n, rest) := by
  have hdigits : ∀ c ∈ Nat.toDigits 10 n, c.isDigit = true :=
    fun c hc => Nat.isDigit_of_mem_toDigits (by decide) (by decide) hc
  have htake : (Nat.toDigits 10 n ++ rest).takeWhile Char.isDigit = Nat.toDigits 10 n := by
    rw [List.takeWhile_append_of_pos hdigits]
    cases rest with
    | nil => simp
    | cons c rest => simp [hrest c rfl]
  have hzero : ((Nat.toDigits 10 n).head? == some '0' &&
      decide (1 < (Nat.toDigits 10 n).length)) = false := by
    rcases Nat.eq_zero_or_pos n with rfl | hpos
    · decide
    · simp [head_toDigits hpos]
  rw [Nat.toString_eq_ofList_toDigits, String.toList_ofList, readNumber, htake]
  simp [hzero, Nat.toDigits_ne_nil, Nat.ofDigitChars_toDigits]

/-! ### Values that have been written -/

/-- Whether a text is read as a value, and what follows it is left. -/
def Denotes (text : String) (value : JsonValue) : Prop :=
  ∀ steps rest, text.toList.length ≤ steps → Parts rest →
    readValue steps (text.toList ++ rest) = some (value, rest)

/-- A text that is a value on its own is one wherever it stands. -/
theorem denotes_of_read? {text : String} {value : JsonValue} (h : read? text = some value) :
    Denotes text value := by
  intro steps rest hsteps hrest
  unfold read? at h
  split at h
  case h_1 hread =>
    cases h
    exact readValue_append (by rwa [← String.length_toList]) hread (.inr hrest)
  case h_2 => cases h

namespace Denotes
variable {text : String} {value : JsonValue} {texts : List String} {values : List JsonValue}
  {members : List (String × JsonValue)} {steps : Nat} {rest : List Char}

theorem read?_eq (h : Denotes text value) : read? text = some value := by
  have hread := h text.toList.length [] (Nat.le_refl _) nofun
  rw [List.append_nil] at hread
  rw [read?, ← String.length_toList, hread]

/-- No value looks like the end of an array. -/
theorem head (h : Denotes text value) : ∃ c cs, text.toList = c :: cs ∧ c ≠ ']' := by
  have hread := h text.toList.length [] (Nat.le_refl _) nofun
  cases htext : text.toList with
  | nil =>
    rw [htext] at hread
    cases hread
  | cons c cs =>
    refine ⟨c, cs, rfl, ?_⟩
    rintro rfl
    rw [htext] at hread
    cases hread

theorem bool (value : Bool) : Denotes (toString value) (.bool value) := by
  intro steps rest hsteps _
  cases steps with
  | zero => cases value <;> exact absurd hsteps (by decide)
  | succ steps => cases value <;> rfl

theorem number (n : Nat) : Denotes (toString n) (.number n) := by
  intro steps rest hsteps hrest
  have hnumber := readNumber_toString n hrest
  obtain ⟨c, cs, hcs, hdigit⟩ := toList_toString n
  obtain ⟨steps, rfl⟩ : ∃ n, steps = n + 1 := ⟨steps - 1, by rw [hcs, List.length_cons] at hsteps; omega⟩
  have hother (d : Char) (hd : d.isDigit = false) : (c == d) = false := by
    rw [beq_eq_false_iff_ne]
    rintro rfl
    rw [hd] at hdigit
    cases hdigit
  rw [hcs, List.cons_append] at hnumber ⊢
  rw [readValue, hother _ (by decide), hother _ (by decide), hother _ (by decide), hdigit]
  exact hnumber

theorem string (text : String) : Denotes (quote text) (.string text) := by
  intro steps rest hsteps _
  have hlength := length_le_escaped text.toList
  rw [toList_quote] at hsteps ⊢
  rw [List.length_cons, List.length_append, List.length_singleton] at hsteps
  obtain ⟨steps, rfl⟩ : ∃ n, steps = n + 1 := ⟨steps - 1, by omega⟩
  have htext := @readText_escaped steps text.toList (by omega) rest
  rw [List.cons_append, List.append_assoc, List.singleton_append]
  show (readText steps _).map _ = _
  rw [htext]
  exact congrArg (fun text => some (JsonValue.string text, rest)) String.ofList_toList

/-! Containers -/

/-- Texts with commas between them are the first one and what is behind it. -/
theorem toList_intercalate_cons (text : String) (texts : List String) :
    (",".intercalate (text :: texts)).toList =
      text.toList ++ if texts = [] then [] else ',' :: (",".intercalate texts).toList := by
  cases texts with
  | nil => simp
  | cons next texts => simp

theorem readItems_eq (h : List.Forall₂ Denotes texts values) (hne : texts ≠ [])
    (hsteps : (",".intercalate texts).toList.length < steps) :
    readItems steps ((",".intercalate texts).toList ++ ']' :: rest) = some (values, rest) := by
  induction h generalizing steps with
  | nil => exact absurd rfl hne
  | @cons text value texts values first others ih =>
    obtain ⟨steps, rfl⟩ := Nat.exists_eq_succ_of_ne_zero (Nat.ne_zero_of_lt hsteps)
    rw [toList_intercalate_cons] at hsteps ⊢
    rw [List.length_append] at hsteps
    rw [readItems, List.append_assoc]
    by_cases hlast : texts = []
    · subst hlast
      cases others
      rw [if_pos rfl, List.nil_append, first _ _ (by omega) (.cons (by decide))]
      rfl
    · rw [if_neg hlast, List.length_cons] at hsteps
      rw [if_neg hlast, List.cons_append, first _ _ (by omega) (.cons (by decide)), Option.bind_eq_bind,
        Option.bind_some]
      show (readItems steps _).bind _ = _
      rw [ih hlast (by omega)]
      rfl

theorem array (h : List.Forall₂ Denotes texts values) :
    Denotes ("[" ++ ",".intercalate texts ++ "]") (.array values) := by
  intro steps rest hsteps _
  have htext : ("[" ++ ",".intercalate texts ++ "]").toList =
      '[' :: ((",".intercalate texts).toList ++ [']']) := by
    rw [String.toList_append, String.toList_append, List.append_assoc]
    rfl
  rw [htext] at hsteps ⊢
  rw [List.length_cons, List.length_append, List.length_singleton] at hsteps
  obtain ⟨steps, rfl⟩ : ∃ n, steps = n + 1 := ⟨steps - 1, by omega⟩
  by_cases hne : texts = []
  · subst hne
    cases h
    rfl
  · have hitems := @readItems_eq texts values steps rest h hne (by omega)
    obtain ⟨c, cs, hcs, hc⟩ : ∃ c cs, (",".intercalate texts).toList = c :: cs ∧ c ≠ ']' := by
      cases h with
      | nil => exact absurd rfl hne
      | cons first _ =>
        obtain ⟨c, cs, hcs, hc⟩ := first.head
        exact ⟨c, _, by rw [toList_intercalate_cons, hcs, List.cons_append], hc⟩
    rw [List.cons_append, List.append_assoc, List.singleton_append]
    show (if ((",".intercalate texts).toList ++ ']' :: rest).head? == some ']' then _
      else (readItems steps _).map _) = _
    rw [hitems, if_neg (by rw [hcs]; simpa using hc)]
    rfl

/-- Whether a text is a name and a value. -/
def Member (text : String) (member : String × JsonValue) : Prop :=
  ∃ written, text = quote member.1 ++ ":" ++ written ∧ Denotes written member.2

theorem readMembers_eq (h : List.Forall₂ Member texts members) (hne : texts ≠ [])
    (hsteps : (",".intercalate texts).toList.length < steps) :
    readMembers steps ((",".intercalate texts).toList ++ '\x7d' :: rest) = some (members, rest) := by
  induction h generalizing steps with
  | nil => exact absurd rfl hne
  | @cons text member texts members first others ih =>
    obtain ⟨steps, rfl⟩ := Nat.exists_eq_succ_of_ne_zero (Nat.ne_zero_of_lt hsteps)
    obtain ⟨name, value⟩ := member
    obtain ⟨written, rfl, hvalue⟩ := first
    have hlength := length_le_escaped name.toList
    have htext : (quote name ++ ":" ++ written).toList =
        '\x22' :: ((name.toList.flatMap fun c => (escape c).toList) ++ '\x22' :: ':' :: written.toList) := by
      rw [String.toList_append, String.toList_append, toList_quote]
      simp
    rw [toList_intercalate_cons, htext] at hsteps ⊢
    simp only [List.length_append, List.length_cons] at hsteps
    simp only [List.cons_append, List.append_assoc]
    rw [readMembers, if_pos (beq_self_eq_true _), readText_escaped (by omega), Option.bind_eq_bind,
      Option.bind_some]
    dsimp only
    rw [List.head?_cons, List.tail_cons, if_neg (by simp), String.ofList_toList]
    by_cases hlast : texts = []
    · subst hlast
      cases others
      rw [if_pos rfl, List.nil_append, hvalue _ _ (by omega) (.cons (by decide))]
      rfl
    · rw [if_neg hlast, List.length_cons] at hsteps
      rw [if_neg hlast, List.cons_append, hvalue _ _ (by omega) (.cons (by decide)), Option.bind_eq_bind,
        Option.bind_some]
      show (readMembers steps _).bind _ = _
      rw [ih hlast (by omega)]
      rfl

theorem object (h : List.Forall₂ Member texts members) :
    Denotes ("\x7b" ++ ",".intercalate texts ++ "\x7d") (.object members) := by
  intro steps rest hsteps _
  have htext : ("\x7b" ++ ",".intercalate texts ++ "\x7d").toList =
      '\x7b' :: ((",".intercalate texts).toList ++ ['\x7d']) := by
    rw [String.toList_append, String.toList_append, List.append_assoc]
    rfl
  rw [htext] at hsteps ⊢
  rw [List.length_cons, List.length_append, List.length_singleton] at hsteps
  obtain ⟨steps, rfl⟩ : ∃ n, steps = n + 1 := ⟨steps - 1, by omega⟩
  by_cases hne : texts = []
  · subst hne
    cases h
    rfl
  · have hmembers := @readMembers_eq texts members steps rest h hne (by omega)
    obtain ⟨cs, hcs⟩ : ∃ cs, (",".intercalate texts).toList = '\x22' :: cs := by
      cases h with
      | nil => exact absurd rfl hne
      | cons first _ =>
        obtain ⟨written, rfl, -⟩ := first
        exact ⟨_, by rw [toList_intercalate_cons, String.toList_append, String.toList_append, toList_quote]; rfl⟩
    rw [List.cons_append, List.append_assoc, List.singleton_append]
    show (if ((",".intercalate texts).toList ++ '\x7d' :: rest).head? == some '\x7d' then _
      else (readMembers steps _).map _) = _
    rw [hmembers, if_neg (by rw [hcs]; simp)]
    rfl

end Denotes

mutual

/-- A value is read from its compact text. -/
theorem compact_denotes : ∀ value : JsonValue, Denotes value.compact value
  | .bool value => .bool value
  | .number n => .number n
  | .string text => .string text
  | .array items => .array (compactItems_denote items)
  | .object members => .object (compactMembers_denote members)

theorem compactItems_denote : ∀ items : List JsonValue, List.Forall₂ Denotes (compactItems items) items
  | [] => .nil
  | item :: items => .cons (compact_denotes item) (compactItems_denote items)

theorem compactMembers_denote : ∀ members : List (String × JsonValue),
    List.Forall₂ Denotes.Member (compactMembers members) members
  | [] => .nil
  | (_, value) :: members => .cons ⟨_, rfl, compact_denotes value⟩ (compactMembers_denote members)

end

/-! ### Reading back -/

/-- What is relied on where texts of values are made elsewhere. A string is read back, and an object of
numbers is, as long as its members have names of their own; they may come in any order. -/
structure ReadBack (print : JsonValue → String) : Prop where
  string (text : String) : read? (print (.string text)) = some (.string text)
  object (members : List (String × Nat)) (hnames : (members.map Prod.fst).Nodup) :
    ∃ back, read? (print (.object (members.map fun m => (m.1, .number m.2)))) = some back ∧
      back.ordered = (object (members.map fun m => (m.1, .number m.2))).ordered

theorem orderedMembers_eq (members : List (String × JsonValue)) :
    orderedMembers members = members.map fun m => (m.1, m.2.ordered) := by
  induction members with
  | nil => rfl
  | cons member members ih => rw [orderedMembers, ih, List.map_cons]

/-- Members that come by name still do when their values are ordered. -/
theorem orderedMembers_byName (members : List (String × JsonValue)) :
    orderedMembers (byName members) = byName (orderedMembers members) := by
  rw [orderedMembers_eq, orderedMembers_eq]
  exact List.map_mergeSort fun _ _ _ _ => rfl

theorem byName_byName (members : List (String × JsonValue)) : byName (byName members) = byName members := by
  refine List.mergeSort_of_pairwise (List.pairwise_mergeSort (fun a b c hab hbc => ?_) (fun a b => ?_) members)
  · simp only [decide_eq_true_eq] at hab hbc ⊢
    exact String.le_trans hab hbc
  · simp only [Bool.or_eq_true, decide_eq_true_eq]
    exact String.le_total a.1 b.1

mutual

theorem ordered_ordered : ∀ value : JsonValue, value.ordered.ordered = value.ordered
  | .bool _ | .number _ | .string _ => by simp only [ordered]
  | .array items => by rw [ordered, ordered, orderedItems_ordered]
  | .object members => by
    rw [ordered, ordered, orderedMembers_byName, orderedMembers_ordered, byName_byName]

theorem orderedItems_ordered : ∀ items : List JsonValue,
    orderedItems (orderedItems items) = orderedItems items
  | [] => rfl
  | item :: items => by
    rw [orderedItems, orderedItems, ordered_ordered, orderedItems_ordered]

theorem orderedMembers_ordered : ∀ members : List (String × JsonValue),
    orderedMembers (orderedMembers members) = orderedMembers members
  | [] => rfl
  | (name, value) :: members => by
    rw [orderedMembers, orderedMembers, ordered_ordered, orderedMembers_ordered]

end

/-- Texts with the members of objects by name are read back. -/
theorem text_readBack : ReadBack text where
  string text := (Denotes.string text).read?_eq
  object _ _ := ⟨_, (compact_denotes (ordered _)).read?_eq, ordered_ordered _⟩

/-- A character beyond U+FFFF may be escaped by two units. -/
example : read? "[\x22\\u00e9\\uD83D\\uDE00\x22,10]" =
    some (.array [.string "é😀", .number 10]) := by cbv

/-- Behind a comma there has to be an item. -/
example : read? "[1,]" = none := by cbv

end ScriptTree.JsonValue
