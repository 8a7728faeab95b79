import Mathlib
import ScriptTree.Proofs.Token.Scanning
import ScriptTree.Proofs.Token.Symbols

/-! The lexemes of a text, end to end, are the text.

Whatever the context, the lexeme that is read next is the head of the text ahead
(`Lexeme.first_heads`), so nothing is lost and nothing is read twice (`lexemesFrom_covers`). -/
namespace ScriptTree

namespace Lexeme

/-! ### Words and symbols -/

theorem ofWord_heads {c : Char} {cs : List Char} (h : isIdentifierStart c = true) :
    Heads (ofWord (c :: cs)) (c :: cs) := by
  have hpart : isIdentifierPart c = true := by
    rw [isIdentifierStart, Bool.or_eq_true] at h
    rcases h with h | h <;> simp [isIdentifierPart, Char.isAlphanum, h]
  have hname : (c :: cs).takeWhile isIdentifierPart ≠ [] := by simp [hpart]
  unfold ofWord
  dsimp only
  split
  · rename_i word hfound
    have hspelling := List.find?_some hfound
    rw [Bool.and_eq_true, beq_iff_eq] at hspelling
    have htext : (keyword word).text = (c :: cs).takeWhile isIdentifierPart := by
      rw [text, hspelling.2, String.toList_ofList]
    rw [← htext] at hname
    exact ⟨hname, htext ▸ List.takeWhile_prefix _, trivial⟩
  · exact ⟨hname, List.takeWhile_prefix _, trivial⟩

theorem regular_of_mem_symbols {l : Lexeme} (h : l ∈ symbols) : l.Regular := by
  rw [symbols, List.mem_append, List.mem_append] at h
  rcases h with (h | h) | h
  · obtain ⟨o, ho, rfl⟩ := List.mem_map.mp h
    simpa [Regular] using (List.mem_filter.mp ho).2
  · obtain ⟨m, _, rfl⟩ := List.mem_map.mp h
    exact trivial
  · obtain ⟨⟨spelling, strict⟩, hloose, rfl⟩ := List.mem_map.mp h
    have hall : ∀ loose ∈ Operator.looseSpellings, loose.2.isWord = false := by decide
    exact hall _ hloose

theorem mem_symbolTable {spelling : List Char} {l : Lexeme} (h : (spelling, l) ∈ symbolTable) :
    spelling = l.text ∧ spelling ≠ [] ∧ l.Regular := by
  simp only [symbolTable, List.mem_flatMap, List.mem_filter, List.mem_map] at h
  obtain ⟨n, hn, ⟨l', hl, heq⟩, hlength⟩ := h
  cases heq
  refine ⟨rfl, ?_, regular_of_mem_symbols hl⟩
  have hpos : ∀ n ∈ [4, 3, 2, 1], n ≠ 0 := by decide
  intro hnil
  refine hpos n hn ?_
  rw [← beq_iff_eq.mp hlength, hnil, List.length_nil]

theorem longestSymbol?_heads {cs : List Char} {l : Lexeme} (h : longestSymbol? cs = some l) :
    Heads l cs := by
  obtain ⟨⟨spelling, l'⟩, hfound, rfl⟩ := Option.map_eq_some_iff.mp h
  obtain ⟨htext, hnonempty, hregular⟩ := mem_symbolTable (List.mem_of_find?_eq_some hfound)
  have hprefix : spelling.isPrefixOf cs = true :=
    List.find?_some (p := fun entry : List Char × Lexeme => entry.1.isPrefixOf cs) hfound
  rw [htext] at hnonempty hprefix
  exact ⟨hnonempty, List.isPrefixOf_iff_prefix.mp hprefix, hregular⟩

theorem ofSymbol?_heads {cs : List Char} {l : Lexeme} (h : ofSymbol? cs = some l) : Heads l cs := by
  cases hopens : digitAhead cs with
  | true =>
    obtain ⟨rest, rfl⟩ := exists_of_digitAhead hopens
    obtain rfl := Option.some.inj ((ofSymbol?_question hopens).symm.trans h)
    exact ⟨by decide, List.prefix_append ['?'] _, trivial⟩
  | false => exact longestSymbol?_heads ((ofSymbol?_eq_longest hopens).symm.trans h)

/-! ### Comments -/

theorem ofLineComment_heads (kind : CommentKind) {c : Char} (cs : List Char)
    (h : isLineTerminator c = false) : Heads (ofLineComment kind (c :: cs)) (c :: cs) := by
  refine ⟨?_, List.takeWhile_prefix _, trivial⟩
  simp [ofLineComment, text, h]

theorem blockBody_eq (cs taken : List Char) :
    ∃ front, front <+: cs ∧ (blockBody cs taken).1 = taken.reverse ++ front := by
  fun_induction blockBody cs taken with
  | case1 taken => exact ⟨[], List.nil_prefix, by simp⟩
  | case2 cs taken => exact ⟨['*', '/'], List.prefix_append ['*', '/'] _, by simp⟩
  | case3 c cs taken _ ih =>
    obtain ⟨front, hfront, heq⟩ := ih
    exact ⟨c :: front, (List.prefix_cons_inj c).mpr hfront, by simp [heq]⟩

theorem ofBlockComment_heads (cs : List Char) :
    Heads (ofBlockComment cs) ('/' :: '*' :: cs) := by
  obtain ⟨front, hfront, heq⟩ := blockBody_eq cs []
  have htext : (ofBlockComment cs).text = '/' :: '*' :: front := by
    simp [ofBlockComment, text, heq]
  refine ⟨?_, ?_, trivial⟩
  · rw [htext]
    exact List.cons_ne_nil _ _
  · rw [htext]
    exact (List.prefix_append_right_inj ['/', '*']).mpr hfront

/-! ### Code -/

theorem getD_ofSymbol?_heads {cs : List Char} {other : Lexeme} (h : Heads other cs) :
    Heads ((ofSymbol? cs).getD other) cs := by
  cases hsymbol : ofSymbol? cs with
  | none => exact h
  | some l => exact ofSymbol?_heads hsymbol

theorem ofSlash_heads (operandEnd : Bool) (cs : List Char) :
    Heads (ofSlash operandEnd cs) ('/' :: cs) := by
  unfold ofSlash
  split
  · exact ofLineComment_heads .line _ (by decide)
  · exact ofBlockComment_heads _
  · split
    · exact getD_ofSymbol?_heads ⟨by decide, List.prefix_append ['/'] _, rfl⟩
    · exact ofRegex_heads cs

/-- No mark that opens a comment ends a line. -/
theorem htmlMark_start {c : Char} {cs : List Char} {atStart : Bool}
    (h : ("<!--".toList.isPrefixOf (c :: cs) ||
      (atStart && "-->".toList.isPrefixOf (c :: cs))) = true) : isLineTerminator c = false := by
  rw [Bool.or_eq_true, Bool.and_eq_true, List.isPrefixOf_iff_prefix,
    List.isPrefixOf_iff_prefix] at h
  rcases h with h | ⟨_, h⟩
  · obtain rfl : '<' = c := (List.cons_prefix_cons.mp h).1
    decide
  · obtain rfl : '-' = c := (List.cons_prefix_cons.mp h).1
    decide

theorem single_heads {l : Lexeme} {c : Char} (cs : List Char) (htext : l.text = [c])
    (hregular : l.Regular) : Heads l (c :: cs) := by
  refine ⟨?_, ?_, hregular⟩
  · rw [htext]
    exact List.cons_ne_nil _ _
  · rw [htext]
    exact List.prefix_append [c] cs

theorem ofCode_heads (ctx : Context) (c : Char) (cs : List Char) :
    Heads (ofCode ctx c cs) (c :: cs) := by
  unfold ofCode
  split
  · rename_i hblank
    exact single_heads cs rfl hblank
  rename_i hblank
  split
  · rename_i hslash
    rw [hslash]
    exact ofSlash_heads ctx.operandEnd cs
  split
  · rename_i hmark
    exact ofLineComment_heads .html cs (htmlMark_start hmark)
  split
  · rename_i hnumber
    exact ofNumber_heads hnumber
  split
  · rename_i hword
    exact ofWord_heads hword
  split
  · rename_i mark hquote
    exact ofString_heads hquote
  · exact getD_ofSymbol?_heads (single_heads cs rfl (Bool.eq_false_of_not_eq_true hblank))

theorem first_heads (ctx : Context) (c : Char) (cs : List Char) :
    Heads (first ctx c cs) (c :: cs) := by
  unfold first
  split
  · exact ofTemplate_heads c cs
  · exact ofCode_heads ctx c cs

end Lexeme

/-! ### Whole texts -/

theorem lexemesFrom_covers (ctx : Context) (cs : List Char) (taken : Array Lexeme) :
    ∃ ls, (lexemesFrom ctx cs taken).1.toList = taken.toList ++ ls ∧
      ls.flatMap Lexeme.text = cs ∧ ∀ l ∈ ls, l.text ≠ [] ∧ l.Regular := by
  fun_induction lexemesFrom ctx cs taken with
  | case1 ctx taken => exact ⟨[], by simp, rfl, by simp⟩
  | case2 ctx taken c rest l ih =>
    obtain ⟨ls, hls, hjoin, hall⟩ := ih
    have hfirst : l.Heads (c :: rest) := Lexeme.first_heads ctx c rest
    refine ⟨l :: ls, by simp [hls], ?_, ?_⟩
    · rw [List.flatMap_cons, hjoin]
      obtain ⟨back, hback⟩ := hfirst.front
      obtain ⟨d, front, htext⟩ := List.exists_cons_of_ne_nil hfirst.nonempty
      rw [htext, List.cons_append, List.cons.injEq] at hback
      obtain ⟨rfl, rfl⟩ := hback
      rw [htext, List.length_cons, Nat.add_sub_cancel, List.drop_left, List.cons_append]
    · rintro m (_ | ⟨_, hm⟩)
      · exact ⟨hfirst.nonempty, hfirst.regular⟩
      · exact hall m hm

end ScriptTree
