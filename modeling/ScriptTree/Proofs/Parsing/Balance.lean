import Mathlib
import ScriptTree.Parsing.Recovery
import ScriptTree.Proofs.Parsing.Statements

/-! Brackets in tokens that parse.

Among the children of a node stand no brackets or a pair of them, whatever the kind (`row_balanced`). So
where nothing was reported, looking for the bracket that closes another passes over the tokens of a node
(`Forest.scan`), and every bracket that opens is closed among the same tokens (`Forest.closed`). -/
namespace ScriptTree.Parsing

/-! ### Brackets of children -/

/-- Whether a symbol is a bracket, and which. -/
def symbolBracket : Symbol → Option Bracket
  | .punctuation mark => bracket? (.punctuation mark)
  | _ => none

/-- The brackets among nodes side by side. -/
def bracketsOf (ns : List Node) : List Bracket := ns.filterMap (symbolBracket ·.symbol)

theorem bracketsOf_cons (n : Node) (ns : List Node) :
    bracketsOf (n :: ns) = (symbolBracket n.symbol).toList ++ bracketsOf ns := by
  rw [bracketsOf, List.filterMap_cons]
  cases symbolBracket n.symbol <;> rfl

/-- The brackets that an item stands for, if all its roles agree. -/
def itemBrackets : Item → Option (List Bracket)
  | .one roles =>
    let bracket := roles.head?.bind (symbolBracket ·.2)
    if roles.all (symbolBracket ·.2 = bracket) then some bracket.toList else none
  | item => if item.roles.all (symbolBracket ·.2 = none) then some [] else none

/-- The brackets that a row of items stands for. -/
def rowBrackets : List Item → Option (List Bracket)
  | [] => some []
  | item :: row => do return (← itemBrackets item) ++ (← rowBrackets row)

theorem rowBrackets_cons {item : Item} {row : List Item} {brackets : List Bracket}
    (h : rowBrackets (item :: row) = some brackets) : ∃ here rest, itemBrackets item = some here ∧
      rowBrackets row = some rest ∧ here ++ rest = brackets := by
  simpa [rowBrackets, Option.bind_eq_some_iff] using h

/-- An item for any number of children stands for no brackets. -/
theorem itemBrackets_roles {item : Item} (hitem : ∀ roles, item ≠ .one roles) {brackets : List Bracket}
    (h : itemBrackets item = some brackets) :
    brackets = [] ∧ ∀ c : Node, c.role ∈ item.roles → symbolBracket c.symbol = none := by
  rw [itemBrackets] at h
  · split at h <;> cases h
    rename_i hroles
    exact ⟨rfl, fun c hc => of_decide_eq_true (List.all_eq_true.mp hroles _ hc)⟩
  · exact hitem

theorem bracketsOf_eq {row : List Item} {cs : List Node} (h : Matches row cs)
    {brackets : List Bracket} (hrow : rowBrackets row = some brackets) : bracketsOf cs = brackets := by
  induction h generalizing brackets with
  | nil => exact Option.some.inj hrow
  | @one roles row c cs hrole _ ih =>
    obtain ⟨here, rest, hhere, hrest, rfl⟩ := rowBrackets_cons hrow
    rw [itemBrackets] at hhere
    split at hhere <;> cases hhere
    rename_i hroles
    have hbracket : symbolBracket c.symbol = roles.head?.bind (symbolBracket ·.2) :=
      of_decide_eq_true (List.all_eq_true.mp hroles _ hrole)
    rw [bracketsOf_cons, hbracket, ih hrest]
  | absent _ ih =>
    obtain ⟨here, rest, hhere, hrest, rfl⟩ := rowBrackets_cons hrow
    obtain ⟨rfl, _⟩ := itemBrackets_roles (by simp) hhere
    exact ih hrest
  | present hrole _ ih =>
    obtain ⟨here, rest, hhere, hrest, rfl⟩ := rowBrackets_cons hrow
    obtain ⟨rfl, hroles⟩ := itemBrackets_roles (by simp) hhere
    rw [bracketsOf_cons, hroles _ hrole, ih hrest]
    rfl
  | many hroles' _ ih =>
    obtain ⟨here, rest, hhere, hrest, rfl⟩ := rowBrackets_cons hrow
    obtain ⟨rfl, hroles⟩ := itemBrackets_roles (by simp) hhere
    rw [bracketsOf, List.filterMap_append,
      List.filterMap_eq_nil_iff.mpr fun c hc => hroles c (hroles' c hc)]
    exact ih hrest

/-- Among the children of a node stand no brackets or a pair of them. -/
theorem row_balanced (kind : NodeKind) :
    rowBrackets kind.row = some [] ∨ rowBrackets kind.row = some [.opening, .closing] := by
  cases kind <;> decide

/-! ### Depths -/

/-- Brackets none of which is left open. -/
structure Balanced (brackets : List Bracket) : Prop where
  depth : ∀ depth, depthBehind depth brackets = some depth
  closed : ∀ rest, .opening :: rest <:+ brackets → depthBehind 0 rest = none

theorem bracketsOf_children {kind : NodeKind} {cs : List Node} (h : Matches kind.row cs) :
    Balanced (bracketsOf cs) := by
  rcases row_balanced kind with hrow | hrow
  · rw [bracketsOf_eq h hrow]
    exact ⟨fun _ => rfl, fun rest hrest => by simp at hrest⟩
  · rw [bracketsOf_eq h hrow]
    refine ⟨fun _ => rfl, fun rest hrest => ?_⟩
    obtain ⟨front, hfront⟩ := hrest
    match front with
    | [] =>
      cases hfront
      rfl
    | [_] => simp at hfront
    | _ :: _ :: _ => simp at hfront

/-! ### Tokens -/

section Tokens
variable {tokens : Array Token} {i : Nat}

/-- One step of the search at a token. -/
theorem closingIndex?_real (hreal : kindAt tokens i ≠ .endOfFile) (depth : Nat) :
    closingIndex? tokens i depth =
      match bracket? (kindAt tokens i) with
      | some .opening => closingIndex? tokens (i + 1) (depth + 1)
      | some .closing =>
        match depth with
        | 0 => none
        | 1 => some i
        | depth + 1 => closingIndex? tokens (i + 1) depth
      | none => closingIndex? tokens (i + 1) depth := by
  have hi := lt_size_of_real hreal
  have hkind := kindAt_eq_getElem hi
  rw [closingIndex?.eq_def, dif_pos hi, ← hkind]
  cases bracket? (kindAt tokens i) with
  | none => exact if_neg hreal
  | some bracket => cases bracket <;> rfl

theorem symbolBracket_symbolOf (kind : TokenKind) : symbolBracket (symbolOf kind) = bracket? kind := by
  cases kind <;> rfl

theorem readsAs_bracket {kind : TokenKind} {symbol : Symbol} (h : readsAs kind symbol = true) :
    symbolBracket symbol = bracket? kind := by
  unfold readsAs at h
  split at h
  · rfl
  · rfl
  all_goals
    first
    | obtain rfl := beq_iff_eq.mp h
      rfl
    | obtain rfl := beq_iff_eq.mp (Bool.and_eq_true_iff.mp h).2
      exact symbolBracket_symbolOf _

theorem bracket_real {bracket : Bracket} (h : bracket? (kindAt tokens i) = some bracket) :
    kindAt tokens i ≠ .endOfFile := by
  intro hend
  rw [hend] at h
  cases h

/-- Whether looking for a closing bracket leads from one index to another, or finds it in between. -/
def Scans (tokens : Array Token) (p q depth : Nat) : Option Nat → Prop
  | some depth' => closingIndex? tokens p (depth + 1) = closingIndex? tokens q (depth' + 1)
  | none => ∃ close < q, closingIndex? tokens p (depth + 1) = some close

namespace Scans
variable {p m q depth depth' : Nat} {result : Option Nat}

theorem of_eq (h : closingIndex? tokens p (depth + 1) = closingIndex? tokens m (depth' + 1))
    (hrest : Scans tokens m q depth' result) : Scans tokens p q depth result := by
  cases result with
  | some depth'' => exact h.trans hrest
  | none =>
    obtain ⟨close, hclose, hfound⟩ := hrest
    exact ⟨close, hclose, h.trans hfound⟩

/-- A token is passed over, unless it is a bracket. -/
theorem plain (hreal : kindAt tokens p ≠ .endOfFile) (hnone : bracket? (kindAt tokens p) = none)
    (hrest : Scans tokens (p + 1) q depth result) : Scans tokens p q depth result := by
  refine of_eq ?_ hrest
  rw [closingIndex?_real hreal, hnone]

/-- A bracket counts. -/
theorem bracket {brackets : List Bracket} {b : Bracket} (hb : bracket? (kindAt tokens p) = some b)
    (hle : p + 1 ≤ q) (hrest : ∀ depth, Scans tokens (p + 1) q depth (depthBehind depth brackets)) :
    Scans tokens p q depth (depthBehind depth (b :: brackets)) := by
  have hstep := closingIndex?_real (bracket_real hb) (depth + 1)
  rw [hb] at hstep
  cases b with
  | opening => exact of_eq hstep (hrest (depth + 1))
  | closing =>
    cases depth with
    | zero => exact ⟨p, hle, hstep⟩
    | succ depth => exact of_eq hstep (hrest depth)

end Scans

theorem literal_bracket {n : Node} (h : literalNode? (tokenAt tokens i) = some n) :
    bracket? (kindAt tokens i) = none ∧ symbolBracket n.symbol = none := by
  rw [literalNode?] at h
  rw [kindAt]
  split at h <;> cases h <;> simp [*, bracket?] <;> rfl

theorem bracketsOf_token {symbol : Symbol} {ns : List Node} {span : Span} (field : Option Field)
    (h : readsAs (kindAt tokens i) symbol = true) :
    bracketsOf ({ Node.leaf symbol span with field } :: ns) =
      (bracket? (kindAt tokens i)).toList ++ bracketsOf ns := by
  rw [bracketsOf_cons, ← readsAs_bracket h]
  rfl

theorem bracketsOf_plain {n : Node} {ns : List Node} {field : Option Field}
    (h : symbolBracket n.symbol = none) : bracketsOf ({ n with field } :: ns) = bracketsOf ns := by
  rw [bracketsOf_cons, h]
  rfl

theorem sign_bracket {kind : TokenKind} (h : isSign kind = true) : bracket? kind = none := by
  cases kind <;> first | rfl | cases h

namespace Forest
variable {p q : Nat} {ps : List Problem} {ns : List Node}

/-- The search goes by the brackets that stand side by side, and passes over those in between. -/
theorem scan (h : Forest tokens p q ps ns) (hps : ps = []) (depth : Nat) :
    Scans tokens p q depth (depthBehind depth (bracketsOf ns)) := by
  induction h generalizing depth with
  | nil => rfl
  | @token p q ps ns symbol field reads rest ih =>
    rw [bracketsOf_token field reads]
    cases hbracket : bracket? (kindAt tokens p) with
    | none => exact .plain (real_of_readsAs reads) hbracket (ih hps depth)
    | some b => exact .bracket hbracket rest.le (ih hps)
  | signed sign number _ _ _ _ ih =>
    refine .plain (isSign_ne_endOfFile sign) (sign_bracket sign) (.plain (number_real number) ?_ ?_)
    · rw [number]
      rfl
    · exact ih hps depth
  | literal field made _ ih =>
    obtain ⟨hbracket, hsymbol⟩ := literal_bracket made
    rw [bracketsOf_plain hsymbol]
    exact .plain (literal_real made) hbracket (ih hps depth)
  | absent => cases hps
  | inner field _ row _ _ _ ihc ih =>
    obtain ⟨hchildren, hrest⟩ := List.append_eq_nil_iff.mp hps
    have hinside := ihc hchildren depth
    rw [(bracketsOf_children row).depth] at hinside
    exact .of_eq hinside (ih hrest depth)
  | damage => simp at hps

/-- Every bracket that opens is closed, unless it stands beside the others and is left open by them. -/
theorem closes (h : Forest tokens p q ps ns) (hps : ps = []) {i : Nat} (hp : p ≤ i) (hq : i < q)
    (hopen : bracket? (kindAt tokens i) = some .opening) :
    (∃ close < q, matchingClose? tokens i = some close) ∨
      ∃ rest depth, .opening :: rest <:+ bracketsOf ns ∧ depthBehind 0 rest = some depth := by
  -- A token that is no bracket does not open one.
  have hbehind {p : Nat} (hnone : bracket? (kindAt tokens p) = none) (hp : p ≤ i) : p + 1 ≤ i := by
    refine Nat.lt_of_le_of_ne hp ?_
    rintro rfl
    rw [hnone] at hopen
    cases hopen
  induction h with
  | nil => omega
  | @token p q ps ns symbol field reads rest ih =>
    rw [bracketsOf_token field reads]
    by_cases hi : i = p
    · subst hi
      have hstep : matchingClose? tokens i = closingIndex? tokens (i + 1) 1 := by
        rw [matchingClose?, closingIndex?_real (bracket_real hopen), hopen]
      have hscan := rest.scan hps 0
      rw [hopen, hstep]
      cases hdepth : depthBehind 0 (bracketsOf ns) with
      | none =>
        rw [hdepth] at hscan
        exact .inl hscan
      | some depth => exact .inr ⟨bracketsOf ns, depth, List.suffix_refl _, hdepth⟩
    · refine (ih hps (by omega) hq).imp_right ?_
      rintro ⟨rest, depth, hsuffix, hdepth⟩
      exact ⟨rest, depth, hsuffix.trans (List.suffix_append _ _), hdepth⟩
  | signed sign number _ _ _ _ ih =>
    have hnumber := hbehind (by rw [number]; rfl) (hbehind (sign_bracket sign) hp)
    exact ih hps hnumber hq
  | literal field made _ ih =>
    obtain ⟨hbracket, hsymbol⟩ := literal_bracket made
    rw [bracketsOf_plain hsymbol]
    exact ih hps (hbehind hbracket hp) hq
  | absent => cases hps
  | @inner p m q _ _ kind cs ns field children row _ _ rest ihc ih =>
    obtain ⟨hchildren, hrest⟩ := List.append_eq_nil_iff.mp hps
    rw [bracketsOf_plain rfl]
    by_cases hm : i < m
    · rcases ihc hchildren hp hm with ⟨close, hclose, hfound⟩ | ⟨inner, depth, hsuffix, hdepth⟩
      · exact .inl ⟨close, hclose.trans_le rest.le, hfound⟩
      · rw [(bracketsOf_children row).closed inner hsuffix] at hdepth
        cases hdepth
    · exact ih hrest (Nat.not_lt.mp hm) hq
  | damage => simp at hps

end Forest

/-- In a program about which nothing was reported, every bracket that opens is closed. -/
theorem runProgram_closes {tokens : Array Token} (hs : IsStream tokens) {maxDepth : Nat}
    (hclean : (runProgram tokens maxDepth).2.problems = #[]) {i : Nat}
    (hopen : bracket? (kindAt tokens i) = some .opening) :
    ∃ close, close + 1 < tokens.size ∧ matchingClose? tokens i = some close := by
  obtain ⟨hforest, hroles⟩ := runProgram_forest hs maxDepth
  rw [hclean] at hforest
  have hreal := hs.succ_lt_of_real (bracket_real hopen)
  have hbrackets : bracketsOf (runProgram tokens maxDepth).1.toList = [] :=
    List.filterMap_eq_nil_iff.mpr fun n hn => by
      have hnone : ∀ role ∈ Role.recovered, symbolBracket role.2 = none := by decide
      exact hnone _ (hroles n hn)
  rcases hforest.closes rfl (Nat.zero_le i) (by omega) hopen with ⟨close, hclose, hfound⟩ |
    ⟨rest, depth, hsuffix, _⟩
  · exact ⟨close, by omega, hfound⟩
  · rw [hbrackets] at hsuffix
    simp at hsuffix

end Tokens

end ScriptTree.Parsing
