import Mathlib
import ScriptTree.Proofs.Token.Stopping

/-! What a scanner takes does not depend on what follows.

A scanner that takes the front of a text takes the same of any other text with that front, as long as
the first character behind the front stays: it may have to see that character in order to stop.
-/
namespace ScriptTree

namespace Keyword

theorem mem_all (word : Keyword) : word ∈ all := by cases word <;> decide

/-- What is not reserved is spelled like no reserved word. -/
theorem spelling_ne {name : String} (h : findReserved? name = none) (word : Keyword)
    (hreserved : word.isReserved = true) : word.spelling ≠ name := by
  simpa [hreserved] using List.find?_eq_none.mp h word word.mem_all

end Keyword

namespace Lexeme

/-! ### Kinds of lexemes -/

/-- A name is a keyword if it is reserved. -/
theorem ofWord_cases (cs : List Char) :
    (∃ word, word.isReserved = true ∧ ofWord cs = .keyword word) ∨
    Keyword.findReserved? (.ofList (cs.takeWhile isIdentifierPart)) = none ∧
      ofWord cs = .identifier (cs.takeWhile isIdentifierPart) := by
  unfold ofWord
  dsimp only
  split
  · rename_i word hfound
    have hspelling := List.find?_some hfound
    rw [Bool.and_eq_true] at hspelling
    exact .inl ⟨word, hspelling.1, rfl⟩
  · rename_i hnone
    exact .inr ⟨hnone, rfl⟩

/-- What is read as code. -/
theorem ofCode_cases (ctx : Context) (c : Char) (cs : List Char) :
    ofCode ctx c cs = .blank c ∨ ofCode ctx c cs = .unexpected c ∨
    (∃ kind text closed, ofCode ctx c cs = .comment kind text closed) ∨
    (∃ text missing, ofCode ctx c cs = .number text missing) ∨
    isIdentifierStart c = true ∧ ofCode ctx c cs = ofWord (c :: cs) ∨
    (∃ quote pieces closed, ofCode ctx c cs = .string quote pieces closed) ∨
    (∃ pattern flags closed, ofCode ctx c cs = .regex pattern flags closed) ∨
    ofSymbol? (c :: cs) = some (ofCode ctx c cs) := by
  have hnumber (cs : List Char) : ∃ text missing, ofNumber cs = .number text missing := by
    unfold ofNumber
    split
    · split <;> exact ⟨_, _, rfl⟩
    · exact ⟨_, _, rfl⟩
  unfold ofCode
  split
  · exact .inl rfl
  split
  · rename_i hslash
    subst hslash
    rw [ofSlash_eq]
    split
    · exact .inr (.inr (.inl ⟨_, _, _, rfl⟩))
    split
    · exact .inr (.inr (.inl ⟨_, _, _, rfl⟩))
    split
    · exact .inr (.inr (.inr (.inr (.inr (.inr (.inr rfl))))))
    · exact .inr (.inr (.inr (.inr (.inr (.inr (.inl ⟨_, _, _, rfl⟩))))))
  split
  · exact .inr (.inr (.inl ⟨_, _, _, rfl⟩))
  split
  · exact .inr (.inr (.inr (.inl (hnumber _))))
  split
  · rename_i hstart
    exact .inr (.inr (.inr (.inr (.inl ⟨hstart, rfl⟩))))
  split
  · exact .inr (.inr (.inr (.inr (.inr (.inl ⟨_, _, _, rfl⟩)))))
  · cases h : ofSymbol? (c :: cs) with
    | none => exact .inr (.inl rfl)
    | some l => exact .inr (.inr (.inr (.inr (.inr (.inr (.inr rfl))))))

/-- What is read as template text. -/
theorem ofTemplate_cases (c : Char) (cs : List Char) :
    ofTemplate c cs = .punctuation .backtick ∨ ofTemplate c cs = .punctuation .dollarBrace ∨
    (∃ text wellFormed, ofTemplate c cs = .templateEscape text wellFormed) ∨
    ∃ text, ofTemplate c cs = .templateChars text := by
  unfold ofTemplate
  split
  · exact .inl rfl
  split
  · exact .inr (.inl rfl)
  split
  · exact .inr (.inr (.inl ⟨_, _, rfl⟩))
  · exact .inr (.inr (.inr ⟨_, rfl⟩))

theorem mem_symbols {cs : List Char} {l : Lexeme} (h : ofSymbol? cs = some l) : l ∈ symbols := by
  cases hopens : digitAhead cs with
  | true =>
    obtain rfl := Option.some.inj ((ofSymbol?_question hopens).symm.trans h)
    simp [symbols, Punctuation.all]
  | false =>
    rw [ofSymbol?_eq_longest hopens] at h
    obtain ⟨⟨text, l'⟩, hfound, rfl⟩ := Option.map_eq_some_iff.mp h
    have hmem := List.mem_of_find?_eq_some hfound
    simp only [symbolTable, List.mem_flatMap, List.mem_filter, List.mem_map] at hmem
    obtain ⟨_, _, ⟨l, hl, heq⟩, _⟩ := hmem
    obtain rfl : l = l' := congrArg Prod.snd heq
    exact hl

/-- Outside of template text, code is read. -/
theorem first_code {ctx : Context} (h : ∀ modes, ctx.modes ≠ .template :: modes) (c : Char)
    (cs : List Char) : first ctx c cs = ofCode ctx c cs := by
  unfold first
  split
  · exact absurd ‹_› (h _)
  · rfl

section Locality
variable {front rest rest' : List Char}

theorem takeWhile_of_front {p : Char → Bool} (h : (front ++ rest).takeWhile p = front)
    (hrest : rest'.head?.any p = false) : (front ++ rest').takeWhile p = front := by
  have hall : ∀ c ∈ front, p c = true := fun c hc => List.mem_takeWhile_imp (h ▸ hc)
  have hnone : rest'.takeWhile p = [] := by
    cases rest' with
    | nil => rfl
    | cons c rest' => exact List.takeWhile_cons_of_neg (by simpa using hrest)
  rw [List.takeWhile_append_of_pos hall, hnone, List.append_nil]

theorem head_any_of_takeWhile {p : Char → Bool} (h : (front ++ rest).takeWhile p = front) :
    rest.head?.any p = false := by
  have hall : ∀ c ∈ front, p c = true := fun c hc => List.mem_takeWhile_imp (h ▸ hc)
  rw [List.takeWhile_append_of_pos hall] at h
  have hnone : rest.takeWhile p = [] := List.append_right_eq_self.mp h
  cases rest with
  | nil => rfl
  | cons c rest =>
    cases hc : p c with
    | false => exact hc
    | true => simp [hc] at hnone

/-! ### Escape sequences -/

/-- What follows the opening brace of an escaped code point. -/
def bracedBody (cs : List Char) : List Char × Bool :=
  let ds := cs.takeWhile isHex
  if (cs.drop ds.length).head? = some '\x7d' then ('u' :: '\x7b' :: ds ++ ['\x7d'], !ds.isEmpty)
  else ('u' :: '\x7b' :: ds, false)

theorem escapeBody_brace (cs : List Char) : escapeBody ('u' :: '\x7b' :: cs) = bracedBody cs := by
  rw [escapeBody, bracedBody]
  split
  · rename_i hclose
    rw [hclose, List.head?_cons, if_pos rfl]
  · rename_i hopen
    rw [if_neg]
    intro hhead
    obtain ⟨rest, hrest⟩ := List.head?_eq_some_iff.mp hhead
    exact hopen rest hrest

theorem escapeBody_unicode {cs : List Char} (h : cs.head? ≠ some '\x7b') :
    escapeBody ('u' :: cs) = ('u' :: takeUpTo 4 isHex cs, (takeUpTo 4 isHex cs).length == 4) := by
  cases cs with
  | nil => rfl
  | cons d cs =>
    have hd : d ≠ '\x7b' := by simpa using h
    simp [escapeBody, hd]

theorem escapeBody_single {c : Char} {cs : List Char} (hx : c ≠ 'x') (hu : c ≠ 'u')
    (hjoined : c = '\r' → cs.head? ≠ some '\n') :
    escapeBody (c :: cs) = if isOctal c then (takeUpTo 3 isOctal (c :: cs), true) else ([c], true) := by
  by_cases hcr : c = '\r'
  · subst hcr
    cases cs with
    | nil => rfl
    | cons d cs =>
      have hd : d ≠ '\n' := by simpa using hjoined rfl
      simp [escapeBody, hd]
  · simp [escapeBody, hu, hcr]

theorem takeUpTo_of_front {n : Nat} {p : Char → Bool} (h : takeUpTo n p (front ++ rest) = front)
    (hhead : rest'.head? = rest.head?) : takeUpTo n p (front ++ rest') = front := by
  have hlength : front.length ≤ n := by
    rw [← h]
    exact (List.takeWhile_prefix p).length_le.trans (List.length_take_le n _)
  rw [takeUpTo, List.take_append, List.take_of_length_le hlength] at h ⊢
  refine takeWhile_of_front h ?_
  have := head_any_of_takeWhile h
  rw [List.head?_take] at this ⊢
  rwa [hhead]

theorem bracedBody_of_front (h : (bracedBody (front ++ rest)).1 = 'u' :: '\x7b' :: front)
    (hhead : rest'.head? = rest.head?) : bracedBody (front ++ rest') = bracedBody (front ++ rest) := by
  have hpart := List.takeWhile_prefix isHex (l := front ++ rest)
  generalize hds : (front ++ rest).takeWhile isHex = ds at hpart
  rw [bracedBody, hds] at h
  split at h
  · have hfront : ds ++ ['\x7d'] = front := by simpa using h
    subst hfront
    have hds' : (ds ++ ['\x7d'] ++ rest').takeWhile isHex = ds := by
      rw [List.append_assoc] at hds ⊢
      exact takeWhile_of_front hds rfl
    rw [bracedBody, bracedBody, hds, hds', List.append_assoc, List.append_assoc, List.drop_left,
      List.drop_left]
    rfl
  · have hfront : ds = front := by simpa using h
    subst hfront
    have hds' : (ds ++ rest').takeWhile isHex = ds :=
      takeWhile_of_front hds (hhead ▸ head_any_of_takeWhile hds)
    rw [bracedBody, bracedBody, hds, hds', List.drop_left, List.drop_left, hhead]

theorem escapeBody_cons (c : Char) (cs : List Char) : ∃ body, (escapeBody (c :: cs)).1 = c :: body := by
  obtain ⟨rest, hrest⟩ := escapeBody_isPrefix (c :: cs)
  have hne : (escapeBody (c :: cs)).1 ≠ [] := by
    by_cases hx : c = 'x'
    · subst hx
      exact List.cons_ne_nil _ _
    by_cases hu : c = 'u'
    · subst hu
      by_cases hbrace : cs.head? = some '\x7b'
      · obtain ⟨inner, rfl⟩ := List.head?_eq_some_iff.mp hbrace
        rw [escapeBody_brace, bracedBody]
        split <;> exact List.cons_ne_nil _ _
      · rw [escapeBody_unicode hbrace]
        exact List.cons_ne_nil _ _
    by_cases hjoined : c = '\r' ∧ cs.head? = some '\n'
    · obtain ⟨rfl, hhead⟩ := hjoined
      obtain ⟨inner, rfl⟩ := List.head?_eq_some_iff.mp hhead
      exact List.cons_ne_nil _ _
    rw [escapeBody_single hx hu fun hc hhead => hjoined ⟨hc, hhead⟩]
    split
    · rename_i hoctal
      simp [takeUpTo, hoctal]
    · exact List.cons_ne_nil _ _
  obtain ⟨d, body, hbody⟩ := List.exists_cons_of_ne_nil hne
  rw [hbody, List.cons_append, List.cons.injEq] at hrest
  exact ⟨body, by rw [hbody, hrest.1]⟩

theorem escapeBody_of_front (h : (escapeBody (front ++ rest)).1 = front)
    (hhead : rest'.head? = rest.head?) : escapeBody (front ++ rest') = escapeBody (front ++ rest) := by
  have hahead (front : List Char) : (front ++ rest').head? = (front ++ rest).head? := by
    cases front with
    | nil => exact hhead
    | cons c front => rfl
  cases front with
  | nil =>
    cases rest with
    | nil => rw [List.head?_eq_none_iff.mp hhead]
    | cons c rest =>
      obtain ⟨body, hbody⟩ := escapeBody_cons c rest
      rw [List.nil_append, hbody] at h
      cases h
  | cons c front =>
    rw [List.cons_append, List.cons_append] at *
    by_cases hx : c = 'x'
    · subst hx
      have hds : takeUpTo 2 isHex (front ++ rest) = front := (List.cons.inj h).2
      show ('x' :: takeUpTo 2 isHex (front ++ rest'), _) = ('x' :: takeUpTo 2 isHex (front ++ rest), _)
      rw [hds, takeUpTo_of_front hds hhead]
    by_cases hu : c = 'u'
    · subst hu
      by_cases hbrace : (front ++ rest).head? = some '\x7b'
      · cases front with
        | nil =>
          obtain ⟨inner, rfl⟩ := List.head?_eq_some_iff.mp hbrace
          rw [List.nil_append, escapeBody_brace, bracedBody] at h
          split at h <;> cases h
        | cons d front =>
          obtain rfl : d = '\x7b' := by simpa using hbrace
          rw [List.cons_append, escapeBody_brace] at h
          rw [List.cons_append, List.cons_append, escapeBody_brace, escapeBody_brace]
          exact bracedBody_of_front h hhead
      · have hbrace' : (front ++ rest').head? ≠ some '\x7b' := by rwa [hahead]
        rw [escapeBody_unicode hbrace] at h
        have hds : takeUpTo 4 isHex (front ++ rest) = front := (List.cons.inj h).2
        rw [escapeBody_unicode hbrace, escapeBody_unicode hbrace', hds, takeUpTo_of_front hds hhead]
    by_cases hjoined : c = '\r' ∧ (front ++ rest).head? = some '\n'
    · obtain ⟨rfl, hnext⟩ := hjoined
      have hnext' := (hahead front).trans hnext
      obtain ⟨inner, hinner⟩ := List.head?_eq_some_iff.mp hnext
      obtain ⟨inner', hinner'⟩ := List.head?_eq_some_iff.mp hnext'
      rw [hinner, hinner']
      rfl
    · have hsingle : c = '\r' → (front ++ rest).head? ≠ some '\n' := fun hc hnext =>
        hjoined ⟨hc, hnext⟩
      have hsingle' : c = '\r' → (front ++ rest').head? ≠ some '\n' := by rwa [hahead]
      rw [escapeBody_single hx hu hsingle] at h
      rw [escapeBody_single hx hu hsingle, escapeBody_single hx hu hsingle']
      by_cases hoctal : isOctal c = true
      · rw [if_pos hoctal] at h
        have hds : takeUpTo 3 isOctal (c :: front ++ rest) = c :: front := h
        have hds' := takeUpTo_of_front hds hhead
        rw [if_pos hoctal, if_pos hoctal]
        exact congrArg (·, true) (hds'.trans hds.symm)
      · rw [if_neg hoctal, if_neg hoctal]

/-! ### Strings -/

theorem piece_of_front {quote c : Char} (h : (piece quote c (front ++ rest)).text = c :: front)
    (hhead : rest'.head? = rest.head?) : piece quote c (front ++ rest') = piece quote c (front ++ rest) := by
  by_cases hescape : c = '\\'
  · rw [piece, if_pos hescape] at h
    have hbody : (escapeBody (front ++ rest)).1 = front := (List.cons.inj h).2
    rw [piece, piece, if_pos hescape, if_pos hescape, escapeBody_of_front hbody hhead]
  · rw [piece, if_neg hescape] at h
    have hplain : (front ++ rest).takeWhile (inFragment quote) = front := (List.cons.inj h).2
    rw [piece, piece, if_neg hescape, if_neg hescape, hplain,
      takeWhile_of_front hplain (hhead ▸ head_any_of_takeWhile hplain)]

theorem pieces_cons {quote c : Char} (hc : c ≠ quote)
    (hend : ¬(decide (c = '\n') || decide (c = '\r')) = true) {front back : List Char}
    (htext : (piece quote c (front ++ back)).text = c :: front) (taken : List Piece) :
    pieces quote (c :: (front ++ back)) taken =
      pieces quote back (piece quote c (front ++ back) :: taken) := by
  have hdrop : (front ++ back).drop ((piece quote c (front ++ back)).text.length - 1) = back := by
    rw [htext, List.length_cons, Nat.add_sub_cancel, List.drop_left]
  rw [pieces, if_neg hc, if_neg hend]
  exact congrArg (pieces quote · _) hdrop

theorem pieces_of_front {quote : Char} {taken : List Piece}
    (h : (pieces quote (front ++ rest) taken).1.flatMap Piece.text =
      taken.reverse.flatMap Piece.text ++ front)
    (hhead : rest'.head? = rest.head?) :
    pieces quote (front ++ rest') taken = pieces quote (front ++ rest) taken := by
  -- What a step takes stands in the front.
  have hstep {c : Char} {back : List Char} {x : List Char} (taken : List Piece)
      (hx : (piece quote c back).text = c :: x) : ∃ ps, (pieces quote (back.drop x.length)
        (piece quote c back :: taken)).1.flatMap Piece.text =
          taken.reverse.flatMap Piece.text ++ (c :: x) ++ ps := by
    obtain ⟨ps, hps, _⟩ := pieces_eq quote (back.drop x.length) (piece quote c back :: taken)
    exact ⟨ps.flatMap Piece.text, by simp [hps, hx]⟩
  induction hlength : front.length using Nat.strong_induction_on generalizing front taken with
  | _ n ih =>
    cases front with
    | nil =>
      cases rest with
      | nil => rw [List.head?_eq_none_iff.mp hhead]
      | cons c rest =>
        obtain ⟨rest', rfl⟩ := List.head?_eq_some_iff.mp hhead
        by_cases hquote : c = quote
        · rw [List.nil_append, List.nil_append, pieces, pieces, if_pos hquote, if_pos hquote]
        by_cases hend : (decide (c = '\n') || decide (c = '\r')) = true
        · rw [List.nil_append, List.nil_append, pieces, pieces, if_neg hquote, if_neg hquote,
            if_pos hend, if_pos hend]
        · obtain ⟨x, hx, htext⟩ := piece_text quote c rest
          obtain ⟨ps, hps⟩ := hstep taken htext
          rw [List.nil_append, pieces, if_neg hquote, if_neg hend] at h
          simp only [htext, List.length_cons, Nat.add_sub_cancel, hps] at h
          simp at h
    | cons c front =>
      rw [List.cons_append] at h ⊢
      rw [List.cons_append]
      have hreads : c ≠ quote ∧ ¬(decide (c = '\n') || decide (c = '\r')) = true := by
        constructor
        · intro hquote
          rw [pieces, if_pos hquote] at h
          simp at h
        · intro hend
          rw [pieces, if_pos hend] at h
          split at h <;> simp at h
      obtain ⟨hquote, hend⟩ := hreads
      obtain ⟨x, hx, htext⟩ := piece_text quote c (front ++ rest)
      obtain ⟨ps, hps⟩ := hstep taken htext
      have hfront : x ++ ps = front := by
        rw [pieces, if_neg hquote, if_neg hend] at h
        simp only [htext, List.length_cons, Nat.add_sub_cancel, hps] at h
        simpa using h
      subst hfront
      rw [List.append_assoc] at htext h ⊢
      rw [List.append_assoc]
      have hnext : (ps ++ rest').head? = (ps ++ rest).head? := by
        cases ps with
        | nil => exact hhead
        | cons d ps => rfl
      have hpiece := piece_of_front htext hnext
      rw [pieces_cons hquote hend htext] at h ⊢
      rw [pieces_cons hquote hend (hpiece ▸ htext), hpiece]
      refine ih ps.length ?_ ?_ rfl
      · rw [← hlength, List.length_cons, List.length_append]
        omega
      · rw [h]
        simp [htext]

/-! ### Comments, templates and regular expressions -/

theorem blockBody_cons {c : Char} {cs : List Char} (h : c = '*' → cs.head? ≠ some '/')
    (taken : List Char) : blockBody (c :: cs) taken = blockBody cs (c :: taken) := by
  by_cases hc : c = '*'
  · subst hc
    cases cs with
    | nil => rfl
    | cons d cs =>
      have hd : d ≠ '/' := by simpa using h rfl
      simp [blockBody, hd]
  · simp [blockBody, hc]

/-- A closed comment has more to it than what was taken before. -/
theorem length_blockBody {cs taken : List Char} (h : (blockBody cs taken).2 = true) :
    taken.length + 2 ≤ (blockBody cs taken).1.length := by
  fun_induction blockBody cs taken with
  | case1 taken => cases h
  | case2 cs taken => simp
  | case3 c cs taken _ ih => exact (Nat.le_succ _).trans (ih h)

theorem blockBody_of_front {taken : List Char}
    (h : blockBody (front ++ rest) taken = (taken.reverse ++ front, true)) (rest' : List Char) :
    blockBody (front ++ rest') taken = (taken.reverse ++ front, true) := by
  induction front generalizing taken with
  | nil =>
    have := length_blockBody (congrArg Prod.snd h)
    rw [h] at this
    simp at this
  | cons c front ih =>
    rw [List.cons_append] at h ⊢
    by_cases hclose : c = '*' ∧ (front ++ rest).head? = some '/'
    · obtain ⟨rfl, hhead⟩ := hclose
      obtain ⟨inner, hinner⟩ := List.head?_eq_some_iff.mp hhead
      rw [hinner] at h
      have hfront : front = ['/'] := by
        have := congrArg Prod.fst h
        simp only [blockBody] at this
        simpa using this.symm
      subst hfront
      simp [blockBody]
    · have hopen : c = '*' → (front ++ rest).head? ≠ some '/' := fun hc hhead => hclose ⟨hc, hhead⟩
      rw [blockBody_cons hopen] at h
      cases front with
      | nil =>
        have := length_blockBody (congrArg Prod.snd h)
        rw [h] at this
        simp at this
      | cons d front =>
        have hopen' : c = '*' → (d :: front ++ rest').head? ≠ some '/' := hopen
        rw [blockBody_cons hopen']
        have := @ih (c :: taken) (by simpa using h)
        simpa using this

theorem templateRun_of_front {taken : List Char}
    (h : templateRun (front ++ rest) taken = taken.reverse ++ front)
    (hhead : rest'.head? = rest.head?) (hbrace : rest.head? = some '$' → rest'[1]? = rest[1]?) :
    templateRun (front ++ rest') taken = taken.reverse ++ front := by
  induction front generalizing taken with
  | nil =>
    rw [List.nil_append, List.append_nil] at *
    cases rest with
    | nil => rwa [List.head?_eq_none_iff.mp hhead]
    | cons c rest =>
      obtain ⟨rest', rfl⟩ := List.head?_eq_some_iff.mp hhead
      have hnext : c = '$' → rest'.head? = rest.head? := by
        rintro rfl
        simpa [List.head?_eq_getElem?] using hbrace rfl
      rw [templateRun] at h ⊢
      split at h
      · rename_i hend
        rw [if_pos]
        by_cases hc : c = '$'
        · rwa [hnext hc]
        · simpa [hc] using hend
      · obtain ⟨more, _, hmore⟩ := templateRun_eq rest (c :: taken)
        rw [hmore] at h
        simp at h
  | cons c front ih =>
    have hahead : (front ++ rest').head? = (front ++ rest).head? := by
      cases front with
      | nil => exact hhead
      | cons d front => rfl
    rw [List.cons_append, templateRun] at h ⊢
    rw [hahead]
    split at h
    · simp at h
    · rename_i hgo
      rw [if_neg hgo]
      have := @ih (c :: taken) (by simpa using h)
      simpa using this

theorem regexBody_of_front {inClass : Bool} {taken : List Char} {closed : Bool}
    (h : regexBody inClass (front ++ rest) taken = (taken.reverse ++ front, closed))
    (hhead : rest'.head? = rest.head?) :
    regexBody inClass (front ++ rest') taken = (taken.reverse ++ front, closed) := by
  -- What has been taken stays taken.
  have hmore (inClass : Bool) (cs taken front : List Char)
      (h : regexBody inClass cs taken = (front, closed)) : ∃ more, front = taken.reverse ++ more := by
    obtain ⟨more, heq, _⟩ := regexBody_eq inClass cs taken
    exact ⟨more, by rw [← heq, h]⟩
  induction hlength : front.length using Nat.strong_induction_on generalizing front inClass taken with
  | _ n ih =>
    cases front with
    | nil =>
      rw [List.nil_append, List.append_nil] at *
      cases rest with
      | nil => rwa [List.head?_eq_none_iff.mp hhead]
      | cons c rest =>
        obtain ⟨rest', rfl⟩ := List.head?_eq_some_iff.mp hhead
        by_cases hc : c = '\\'
        · subst hc
          cases rest with
          | nil => simp [regexBody, isLineTerminator] at h
          | cons d rest =>
            rw [regexBody] at h
            split at h
            · simp at h
            · obtain ⟨more, hmore⟩ := hmore _ _ _ _ h
              simp at hmore
        · have hplain (cs : List Char) : c = '\\' → cs = [] := fun h => absurd h hc
          rw [regexBody_cons (hplain _)] at h ⊢
          split at h
          · rw [if_pos ‹_›]
            exact h
          · rw [if_neg ‹_›]
            split at h
            · rw [if_pos ‹_›]
              exact h
            · obtain ⟨more, hmore⟩ := hmore _ _ _ _ h
              simp at hmore
    | cons c front =>
      rw [List.cons_append] at h ⊢
      by_cases hc : c = '\\'
      · subst hc
        cases front with
        | nil =>
          rw [List.nil_append] at *
          cases rest with
          | nil => rwa [List.head?_eq_none_iff.mp hhead]
          | cons d rest =>
            obtain ⟨rest', rfl⟩ := List.head?_eq_some_iff.mp hhead
            rw [regexBody] at h ⊢
            split at h
            · rw [if_pos ‹_›]
              exact h
            · obtain ⟨more, hmore⟩ := hmore _ _ _ _ h
              simp at hmore
        | cons d front =>
          rw [List.cons_append, regexBody] at h ⊢
          split at h
          · simp at h
          · rw [if_neg ‹_›]
            have := @ih front.length (by simp only [← hlength, List.length_cons]; omega)
              front _ (d :: '\\' :: taken) (by simpa using h) rfl
            simpa using this
      · have hplain (cs : List Char) : c = '\\' → cs = [] := fun h => absurd h hc
        rw [regexBody_cons (hplain _)] at h ⊢
        split at h
        · simp at h
        · rw [if_neg ‹_›]
          split at h
          · simp at h
          · rw [if_neg ‹_›]
            have := @ih front.length (by simp only [← hlength, List.length_cons]; omega)
              front _ (c :: taken) (by simpa using h) rfl
            simpa using this

/-! ### Lexemes

What is closed needs no look at what follows. -/

theorem ofLineComment_of_front {kind : CommentKind} (h : (ofLineComment kind (front ++ rest)).text = front)
    (hhead : rest'.head? = rest.head?) :
    ofLineComment kind (front ++ rest') = ofLineComment kind (front ++ rest) := by
  have hfront : (front ++ rest).takeWhile (!isLineTerminator ·) = front := h
  rw [ofLineComment, ofLineComment, hfront,
    takeWhile_of_front hfront (hhead ▸ head_any_of_takeWhile hfront)]

theorem blockBody_open {cs taken : List Char} (h : (blockBody cs taken).2 = false) :
    (blockBody cs taken).1 = taken.reverse ++ cs := by
  fun_induction blockBody cs taken with
  | case1 taken => rw [List.append_nil]
  | case2 cs taken => cases h
  | case3 c cs taken _ ih => rw [ih h, List.reverse_cons, List.append_assoc, List.singleton_append]

theorem ofBlockComment_of_front (h : (ofBlockComment (front ++ rest)).text = '/' :: '*' :: front)
    (hhead : rest'.head? = rest.head? ∨ (blockBody (front ++ rest) []).2 = true) :
    ofBlockComment (front ++ rest') = ofBlockComment (front ++ rest) := by
  have hbody : (blockBody (front ++ rest) []).1 = front := by
    simpa [ofBlockComment, text] using h
  cases hclosed : (blockBody (front ++ rest) []).2 with
  | true =>
    have hfront : blockBody (front ++ rest) [] = ([].reverse ++ front, true) := Prod.ext hbody hclosed
    rw [ofBlockComment, ofBlockComment, blockBody_of_front hfront rest', hfront]
  | false =>
    have hall := blockBody_open hclosed
    rw [hbody, List.reverse_nil, List.nil_append] at hall
    obtain rfl : rest = [] := List.append_right_eq_self.mp hall.symm
    rw [hclosed, or_iff_left Bool.false_ne_true] at hhead
    rw [List.head?_eq_none_iff.mp hhead]

theorem ofString_of_front {mark : Punctuation} {c : Char} (hquote : quote? c = some mark)
    (h : (ofString mark c (front ++ rest)).text = c :: front)
    (hhead : rest'.head? = rest.head? ∨ (pieces c (front ++ rest) []).2 = true) :
    ofString mark c (front ++ rest') = ofString mark c (front ++ rest) := by
  obtain ⟨hspelling, _⟩ := quote_spelling hquote
  rw [ofString] at h
  generalize hpieces : pieces c (front ++ rest) [] = body at h hhead
  obtain ⟨ps, closed⟩ := body
  suffices hsame : pieces c (front ++ rest') [] = (ps, closed) by rw [ofString, ofString, hsame, hpieces]
  cases closed with
  | false =>
    have hfront : ps.flatMap Piece.text = front := by simpa [text, hspelling] using h
    rw [← hpieces]
    exact pieces_of_front (by rw [hpieces]; exact hfront) (hhead.resolve_right (by simp))
  | true =>
    have hfront : ps.flatMap Piece.text ++ [c] = front := by simpa [text, hspelling] using h
    subst hfront
    rw [List.append_assoc] at hpieces ⊢
    rw [← hpieces]
    exact pieces_of_front (by rw [hpieces]; rfl) rfl

theorem ofRegex_of_front (h : (ofRegex (front ++ rest)).text = '/' :: front)
    (hhead : rest'.head? = rest.head? ∨
      (regexBody false (front ++ rest) []).2 = true ∧ rest'.head?.any Char.isLower = false) :
    ofRegex (front ++ rest') = ofRegex (front ++ rest) := by
  obtain ⟨pattern', heq, hprefix⟩ := regexBody_eq false (front ++ rest) []
  rw [ofRegex] at h
  generalize hbody : regexBody false (front ++ rest) [] = body at h hhead heq hprefix
  obtain ⟨pattern, closed⟩ := body
  obtain rfl : pattern = pattern' := heq
  cases closed with
  | false =>
    have hfront : pattern = front := by simpa [text] using h
    subst hfront
    have hbody' := @regexBody_of_front _ _ _ false [] _ hbody (hhead.resolve_right (by simp))
    rw [ofRegex, ofRegex, hbody, hbody']
    rfl
  | true =>
    obtain ⟨back, hback⟩ : pattern ++ ['/'] <+: front ++ rest := hprefix
    have hflags : (front ++ rest).drop (pattern.length + 1) = back := by
      rw [← hback]
      simp
    have hfront : pattern ++ '/' :: back.takeWhile Char.isLower = front := by
      simpa [text, hflags] using h
    generalize hlower : back.takeWhile Char.isLower = flags at hfront
    subst hfront
    obtain rfl : flags ++ rest = back := by simpa using hback.symm
    have hlower' : (flags ++ rest').takeWhile Char.isLower = flags := by
      refine takeWhile_of_front hlower ?_
      rcases hhead with hhead | ⟨_, hhead⟩
      · rw [hhead]
        exact head_any_of_takeWhile hlower
      · exact hhead
    have hdrop (rest : List Char) : (pattern ++ '/' :: flags ++ rest).drop (pattern.length + 1) =
        flags ++ rest := by simp
    have hbody' : regexBody false (pattern ++ '/' :: flags ++ rest') [] = (pattern, true) := by
      rw [List.append_assoc] at hbody ⊢
      exact @regexBody_of_front _ _ _ false [] _ hbody rfl
    rw [ofRegex, ofRegex, hbody, hbody']
    simp only [if_true, hdrop, hlower, hlower']

theorem ofTemplate_of_front {c : Char} (h : (ofTemplate c (front ++ rest)).text = c :: front)
    (hhead : rest'.head? = rest.head?) (hbrace : rest.head? = some '$' → rest'[1]? = rest[1]?) :
    ofTemplate c (front ++ rest') = ofTemplate c (front ++ rest) := by
  have hahead : (front ++ rest').head? = (front ++ rest).head? := by
    cases front with
    | nil => exact hhead
    | cons d front => rfl
  rw [ofTemplate] at h
  rw [ofTemplate, ofTemplate, hahead]
  by_cases hbacktick : c = '\x60'
  · rw [if_pos hbacktick, if_pos hbacktick]
  rw [if_neg hbacktick] at h
  rw [if_neg hbacktick, if_neg hbacktick]
  by_cases hopens : (decide (c = '$') && decide ((front ++ rest).head? = some '\x7b')) = true
  · rw [if_pos hopens, if_pos hopens]
  rw [if_neg hopens] at h
  rw [if_neg hopens, if_neg hopens]
  by_cases hescape : c = '\\'
  · rw [if_pos hescape] at h
    rw [if_pos hescape, if_pos hescape, escapeBody_of_front (List.cons.inj h).2 hhead]
  · rw [if_neg hescape] at h
    have hrun : templateRun (c :: front ++ rest) [] = [].reverse ++ (c :: front) := h
    rw [if_neg hescape, if_neg hescape]
    exact congrArg templateChars ((templateRun_of_front hrun hhead hbrace).trans hrun.symm)

end Locality

end Lexeme

end ScriptTree
