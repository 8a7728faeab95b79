import Mathlib
import ScriptTree.Proofs.Mirror.Types

/-! The productions of literals and names in two runs. -/
namespace ScriptTree.Parsing

variable {W : World} {S : Stage W} {s t : State} {ends : Node → State → Prop} [Vital W ends]

/-! ### Strings and regular expressions -/

/-- A token with parts of its own is taken apart on both sides. -/
theorem dissect_mirrors (hS : S.Coherent) {m m' : Parse Node} (hclear : W.Clear s)
    (h : Reads S.left none m s (Dissects W.left s)) (h' : Reads S.right none m' t (Dissects W.right t)) :
    Mirrors S ends m s m' t W.Nodes := by
  intro haligned
  have hinside := hS.world.inside haligned
  have hleft := h nofun hinside.1
  have hright := h' nofun (show t.position < W.right.size by omega)
  cases hrun : m S.left s with
  | error e s₁ =>
    rw [hrun] at hleft
    obtain ⟨_, _, h, _⟩ := hleft
    cases h
  | ok n s₁ =>
    cases hrun' : m' S.right t with
    | error e t₁ =>
      rw [hrun'] at hright
      obtain ⟨_, _, h, _⟩ := hright
      cases h
    | ok n' t₁ =>
      rw [hrun] at hleft
      rw [hrun'] at hright
      intro hends
      have hlive := hS.world.live_of_same hleft.2.same (Vital.live (W := W) hends)
      have hnext := hS.world.advance haligned hclear (literal_real hleft.2.made) hlive
      exact ⟨n', t₁, rfl, hS.world.same hnext hleft.2.same hright.2.same,
        (hS.world.token haligned hclear).literal n n' hleft.2.made hright.2.made⟩

theorem stringLiteral_mirrors (hS : S.Coherent) {quote : Punctuation} {parts parts' : List StringPart}
    (hclear : W.Clear s) (hkind : kindAt W.left s.position = .string quote parts)
    (hkind' : kindAt W.right t.position = .string quote parts') :
    Mirrors S ends (stringLiteral quote parts) s (stringLiteral quote parts') t W.Nodes :=
  dissect_mirrors hS hclear (stringLiteral_dissects hS.world.streamLeft hkind)
    (stringLiteral_dissects hS.world.streamRight hkind')

theorem regexLiteral_mirrors (hS : S.Coherent) {pattern pattern' : Span} {flags flags' : Option Span}
    (hclear : W.Clear s) (hkind : kindAt W.left s.position = .regex pattern flags)
    (hkind' : kindAt W.right t.position = .regex pattern' flags') :
    Mirrors S ends (regexLiteral pattern flags) s (regexLiteral pattern' flags') t W.Nodes :=
  dissect_mirrors hS hclear (regexLiteral_dissects hS.world.streamLeft hkind)
    (regexLiteral_dissects hS.world.streamRight hkind')

/-! ### Templates -/

theorem templateSubstitution_mirrors (hS : S.Coherent)
    (hreal : kindAt W.left s.position ≠ .endOfFile) :
    Mirrors S ends templateSubstitution s templateSubstitution t W.Nodes := by
  unfold templateSubstitution
  refine (bump_mirrors hS hreal).bind hS fun opening s₁ opening' t₁ hopening => ?_
  refine (expression_mirrors hS).bind hS fun value s₂ value' t₂ hvalue => ?_
  exact (expect_mirrors hS).bind hS fun closing s₃ closing' t₃ hclosing =>
    node_mirrors hS (.cons hopening (.cons hvalue (.cons hclosing .nil))) (by simp)

theorem templatePiece_composed (children : Array Node) (kind : TokenKind) : Composed (match kind with
    | .templateChars | .templateEscape => do return .more (children.push (← bump))
    | .punctuation .dollarBrace => do return .more (children.push (← templateSubstitution))
    | _ => Pure.pure (.done children) : Parse (Round (Array Node))) := by
  split <;> infer_instance

theorem templateString_mirrors (hS : S.Coherent) (hreal : kindAt W.left s.position ≠ .endOfFile) :
    Mirrors S ends templateString s templateString t W.Nodes := by
  have := templatePiece_composed
  unfold templateString
  refine (bump_mirrors hS hreal).bind hS fun opening s₁ opening' t₁ hopening => ?_
  refine collect_mirrors hS (.cons hopening .nil) fun children s₂ children' t₂ h => ?_
  refine .of_clear (fun haligned hpending => ?_) fun hclear => .of_aligned fun haligned => ?_
  · rw [dies_peekKind_bind]
    split
    · exact dies_of_forward hS (by simp [*]) hpending
    · exact dies_of_forward hS (by simp [*]) hpending
    · exact dies_of_forward hS (by simp [*]) hpending
    · exact fun hends => hpending hends.2
  · have hlike := hS.world.kindLike haligned hclear
    rw [mirrors_peekKind_bind]
    generalize hkind : kindAt W.left s₂.position = kind at hlike
    generalize kindAt W.right t₂.position = kind' at hlike
    have hread (hreal : kindAt W.left s₂.position ≠ .endOfFile) :
        Mirrors S (W.Between W.Settled) (bump >>= fun n => Pure.pure (.more (children.push n))) s₂
          (bump >>= fun n => Pure.pure (.more (children'.push n))) t₂ (Abreast s₂ W.Lists W.Lists) :=
      .advancing hS hreal ((bump_mirrors hS hreal).bind hS fun _ _ _ _ hn => .pure (h.push hn))
    cases hlike with
    | refl =>
      split
      · exact hread (by simp [hkind])
      · exact hread (by simp [hkind])
      · have hreal : kindAt W.left s₂.position ≠ .endOfFile := by simp [hkind]
        exact .advancing hS hreal ((templateSubstitution_mirrors hS hreal).bind hS
          fun _ _ _ _ hn => .pure (h.push hn))
      · exact .pure (.done h)
    | identifier | number | string | regex => exact .pure (.done h)

/-! ### Arrays and objects -/

theorem arrayLiteral_mirrors (hS : S.Coherent) (hreal : kindAt W.left s.position ≠ .endOfFile) :
    Mirrors S ends arrayLiteral s arrayLiteral t W.Nodes := by
  have hcomma := telling_mark .comma (by decide)
  unfold arrayLiteral
  dsimp only
  refine (bump_mirrors hS hreal).bind hS fun opening s₁ opening' t₁ hopening => ?_
  refine (expression_mirrors hS).bind hS fun first s₂ first' t₂ hfirst => ?_
  refine collect_mirrors hS (.cons hopening (.cons hfirst .nil)) fun children s₃ children' t₃ h => ?_
  rw [mirrors_sees_bind]
  refine .branch hS hcomma (fun _ hkind => ?_) fun _ => .pure (.done h)
  have hreal := hcomma.real_of hkind
  refine .advancing hS hreal ((bump_mirrors hS hreal).bind hS fun comma s₄ comma' t₄ hcomma => ?_)
  exact (expression_mirrors hS).bind hS fun n s₅ n' t₅ hn => .pure ((h.push hcomma).push hn)

theorem objectMember_mirrors (hS : S.Coherent) {children children' : Array Node}
    (h : W.Alike children children') {ends : Array Node → State → Prop} [Vital W ends] :
    Mirrors S ends (objectMember children) s (objectMember children') t fun a s' a' =>
      W.Lists a s' a' ∧ s.position < s'.position := by
  unfold objectMember
  rw [mirrors_seesIdentifier_bind]
  refine demand_mirrors hS telling_identifier fun hclear hkind => ?_
  have hreal := telling_identifier.real_of hkind
  refine .past hS hreal (.of_aligned fun haligned => ?_)
  rw [mirrors_kindAhead_bind, ← (hS.world.foreseen haligned hclear).colon hkind]
  refine .ite Iff.rfl (fun hcolon => ?_) fun _ => ?_
  · refine (bumpSymbol_next_mirrors hS hreal).bind hS fun key s₁ key' t₁ ⟨hkey, hsame⟩ => ?_
    refine (bump_mirrors hS ?_).bind hS fun colon s₂ colon' t₂ hcolon => ?_
    · rw [hsame.1, isPunctuation_iff.mp hcolon]
      exact nofun
    · exact (expression_mirrors hS).bind hS fun value s₃ value' t₃ hvalue =>
        .pure (h.append (.cons (hS.world.withField _ hkey)
          (.cons hcolon (.cons (hS.world.withField _ hvalue) .nil))))
  · exact (bumpAs_mirrors hS hreal).bind hS fun n s₁ n' t₁ hn =>
      .pure (h.push (hS.world.withField _ hn))

theorem objectLiteral_mirrors (hS : S.Coherent) (hreal : kindAt W.left s.position ≠ .endOfFile) :
    Mirrors S ends objectLiteral s objectLiteral t W.Nodes := by
  have hcomma := telling_mark .comma (by decide)
  unfold objectLiteral
  dsimp only
  refine (bump_mirrors hS hreal).bind hS fun opening s₁ opening' t₁ hopening => ?_
  refine collect_mirrors hS (.cons hopening .nil) fun children s₂ children' t₂ h => ?_
  refine (objectMember_mirrors hS h).bind hS fun more s₃ more' t₃ ⟨hmore, hlt⟩ => ?_
  rw [mirrors_sees_bind]
  refine .branch hS hcomma (fun hclear hkind => ?_) fun _ => .pure (.done hmore)
  refine .of_aligned fun haligned => ?_
  -- Nothing is pending behind a comma, so both see the brace that closes the object or do not.
  have hjoined := (hS.world.foreseen haligned hclear).comma (isPunctuation_iff.mp hkind)
  refine (bump_next_mirrors hS (hcomma.real_of hkind)).bind hS
    fun comma s₄ comma' t₄ ⟨hlast, hsame⟩ => .of_aligned fun haligned => ?_
  have hlike := hS.world.kindLike haligned (hS.world.clear hsame hjoined)
  rw [mirrors_sees_bind, hlike.isPunctuation_eq]
  have hnext : s₂.position < s₄.position := hlt.trans (Nat.lt_of_succ_le hsame.1.ge)
  split
  · exact .pure (.done (hmore.push hlast))
  · exact .pure ⟨hmore.push hlast, fun _ _ => hnext⟩

/-! ### Names -/

theorem comptimeIdentifier_mirrors (hS : S.Coherent)
    (hreal : kindAt W.left s.position ≠ .endOfFile) :
    Mirrors S ends comptimeIdentifier s comptimeIdentifier t W.Nodes := by
  unfold comptimeIdentifier
  refine (bump_mirrors hS hreal).bind hS fun mark s₁ mark' t₁ hmark => ?_
  exact (expectIdentifier_mirrors hS rfl).bind hS fun name s₂ name' t₂ hname =>
    node_mirrors hS (.cons hmark (.cons hname .nil)) (by simp)

theorem privateName_mirrors (hS : S.Coherent) :
    Mirrors S ends privateName s privateName t W.Nodes := by
  unfold privateName
  refine (expect_mirrors hS).bind hS fun mark s₁ mark' t₁ hmark => ?_
  exact (expectIdentifier_mirrors hS rfl).bind hS fun name s₂ name' t₂ hname =>
    node_mirrors hS (.cons hmark (.cons hname .nil)) (by simp)

end ScriptTree.Parsing
