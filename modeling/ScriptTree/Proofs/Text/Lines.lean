import Mathlib
import ScriptTree.Proofs.Text.Bytes
import ScriptTree.Text.LineIndex

/-! What bisection finds.

The line index gives an offset the point that one comes to by going through the text character by
character (`LineIndex.point_eq`): the row starts are in order, so bisection ends at the last one that is
not behind the offset. -/
namespace ScriptTree

/-- The point `offset` bytes into a text that starts at a point. -/
def Point.through (p : Point) : List Char → Nat → Point
  | [], offset => ⟨p.row, p.column + offset⟩
  | c :: cs, offset =>
    if offset < c.utf8Size then ⟨p.row, p.column + offset⟩
    else through (if c = '\n' then ⟨p.row + 1, 0⟩ else ⟨p.row, p.column + c.utf8Size⟩) cs
      (offset - c.utf8Size)

/-- The point behind a character that stands at a point. -/
def Point.behind (p : Point) (c : Char) : Point :=
  if c = '\n' then ⟨p.row + 1, 0⟩ else ⟨p.row, p.column + c.utf8Size⟩

/-- The point behind the beginning of a text. -/
theorem Point.through_append (p : Point) (front back : List Char) :
    through p (front ++ back) (byteLength front) = front.foldl behind p := by
  induction front generalizing p with
  | nil =>
    cases back with
    | nil => rfl
    | cons c back => exact if_pos c.utf8Size_pos
  | cons c front ih =>
    rw [List.cons_append, byteLength_cons, through, if_neg (by omega), Nat.add_sub_cancel_left, ih]
    rfl

namespace LineIndex

/-! ### Row starts -/

/-- The offsets just past each line feed. -/
def feeds (offset : Nat) : List Char → List Nat
  | [] => []
  | c :: cs =>
    let next := offset + c.utf8Size
    (if c = '\n' then [next] else []) ++ feeds next cs

theorem collect_eq (offset : Nat) (cs : List Char) (starts : Array Nat) :
    collect offset cs starts = starts ++ (feeds offset cs).toArray := by
  induction cs generalizing offset starts with
  | nil => simp [collect, feeds]
  | cons c cs ih =>
    rw [collect, feeds, ih]
    split <;> simp

theorem le_of_mem_feeds {offset : Nat} {c : Char} {cs : List Char} :
    ∀ start ∈ feeds offset (c :: cs), offset + c.utf8Size ≤ start := by
  induction cs generalizing offset c with
  | nil =>
    intro start hstart
    rw [feeds, feeds, List.append_nil] at hstart
    exact (List.mem_singleton.mp (List.mem_ite_nil_right.mp hstart).2).ge
  | cons d cs ih =>
    intro start hstart
    rcases List.mem_append.mp hstart with hstart | hstart
    · exact (List.mem_singleton.mp (List.mem_ite_nil_right.mp hstart).2).ge
    · exact (Nat.le_add_right _ _).trans (ih start hstart)

theorem lt_of_mem_feeds {offset : Nat} {cs : List Char} :
    ∀ start ∈ feeds offset cs, offset < start := by
  cases cs with
  | nil => nofun
  | cons c cs =>
    exact fun start hstart =>
      (Nat.lt_add_of_pos_right c.utf8Size_pos).trans_le (le_of_mem_feeds start hstart)

theorem pairwise_feeds (offset : Nat) (cs : List Char) : (feeds offset cs).Pairwise (· < ·) := by
  induction cs generalizing offset with
  | nil => exact .nil
  | cons c cs ih =>
    rw [feeds]
    split
    · exact .cons lt_of_mem_feeds (ih _)
    · exact ih _

theorem sorted_ofList (cs : List Char) : (ofList cs).starts.toList.Pairwise (· < ·) := by
  have hstarts : (ofList cs).starts.toList = 0 :: feeds 0 cs := by
    rw [ofList, collect_eq]
    simp
  rw [hstarts]
  exact .cons lt_of_mem_feeds (pairwise_feeds 0 cs)

/-! ### Bisection -/

/-- Whether a row is the last one that does not start behind an offset. -/
structure IsRow (starts : Array Nat) (offset row : Nat) : Prop where
  inside : row < starts.size
  before : starts.getD row 0 ≤ offset
  behind : ∀ next, row < next → next < starts.size → offset < starts.getD next 0

theorem getD_le_of_sorted {starts : Array Nat} (h : starts.toList.Pairwise (· < ·)) {i j : Nat}
    (hij : i ≤ j) (hj : j < starts.size) : starts.getD i 0 ≤ starts.getD j 0 := by
  rcases hij.eq_or_lt with rfl | hlt
  · exact le_rfl
  · have := List.pairwise_iff_getElem.mp h i j (by simpa using hlt.trans hj) (by simpa using hj) hlt
    simpa [Array.getD, hj, hlt.trans hj] using this.le

theorem bisect_isRow (index : LineIndex) (hsorted : index.starts.toList.Pairwise (· < ·))
    {offset lo hi : Nat} (hlo : index.starts.getD lo 0 ≤ offset) (hlt : lo < hi)
    (hhi : hi ≤ index.starts.size)
    (hbehind : ∀ next, hi ≤ next → next < index.starts.size → offset < index.starts.getD next 0) :
    IsRow index.starts offset (index.bisect offset lo hi) := by
  fun_induction bisect index offset lo hi with
  | case1 lo hi hend => exact ⟨by omega, hlo, fun next hnext => hbehind next (by omega)⟩
  | case2 lo hi hend mid hmid ih => exact ih hmid (by omega) hhi hbehind
  | case3 lo hi hend mid hmid ih =>
    refine ih hlo (by omega) (by omega) fun next hnext hinside => ?_
    exact (Nat.lt_of_not_le hmid).trans_le (getD_le_of_sorted hsorted hnext hinside)

/-! ### Going through a text -/

theorem getD_collect_old {starts : Array Nat} {i : Nat} (h : i < starts.size) (offset : Nat)
    (cs : List Char) : (collect offset cs starts).getD i 0 = starts.getD i 0 := by
  have : i < (starts ++ (feeds offset cs).toArray).size := by
    rw [Array.size_append]
    omega
  rw [collect_eq, Array.getD, Array.getD, dif_pos h, dif_pos this]
  exact Array.getElem_append_left h

theorem getD_collect_new {starts : Array Nat} {offset i : Nat} {cs : List Char}
    (h : starts.size ≤ i) (hi : i < (collect offset cs starts).size) :
    (collect offset cs starts).getD i 0 ∈ feeds offset cs := by
  rw [collect_eq] at hi ⊢
  rw [Array.getD, dif_pos hi]
  show (starts ++ (feeds offset cs).toArray)[i] ∈ _
  rw [Array.getElem_append_right h]
  exact List.getElem_mem _

/-- In the last row that has been found so far. -/
theorem isRow_last {starts : Array Nat} (hne : 0 < starts.size) {base offset row : Nat}
    {cs : List Char} (hlast : starts.getD (starts.size - 1) 0 ≤ offset)
    (hnew : ∀ i, starts.size ≤ i → i < (collect base cs starts).size →
      offset < (collect base cs starts).getD i 0)
    (hrow : IsRow (collect base cs starts) offset row) : row = starts.size - 1 := by
  have hsize : starts.size ≤ (collect base cs starts).size := by
    rw [collect_eq, Array.size_append]
    omega
  rcases Nat.lt_trichotomy row (starts.size - 1) with hlt | heq | hgt
  · have := hrow.behind (starts.size - 1) hlt (by omega)
    rw [getD_collect_old (by omega)] at this
    omega
  · exact heq
  · have := hnew row (by omega) hrow.inside
    have := hrow.before
    omega

theorem through_of_isRow {starts : Array Nat} (hne : 0 < starts.size) {base offset row : Nat}
    {cs : List Char} (hlast : starts.getD (starts.size - 1) 0 ≤ base)
    (hrow : IsRow (collect base cs starts) (base + offset) row) :
    Point.through ⟨starts.size - 1, base - starts.getD (starts.size - 1) 0⟩ cs offset =
      ⟨row, base + offset - (collect base cs starts).getD row 0⟩ := by
  induction cs generalizing base starts offset with
  | nil =>
    have hrow := isRow_last hne (by omega) (fun i hi hi' => absurd hi' (by simpa [collect] using hi))
      hrow
    rw [hrow, Point.through, collect]
    exact congrArg (Point.mk _) (by dsimp only; omega)
  | cons c cs ih =>
    by_cases hhere : offset < c.utf8Size
    · have hrow := isRow_last hne (by omega) (fun i hi hi' => ?_) hrow
      · rw [hrow, getD_collect_old (by omega), Point.through, if_pos hhere]
        exact congrArg (Point.mk _) (by dsimp only; omega)
      · have := le_of_mem_feeds _ (getD_collect_new hi hi')
        omega
    · have hbase : base + offset = base + c.utf8Size + (offset - c.utf8Size) := by omega
      rw [hbase] at hrow ⊢
      rw [Point.through, if_neg hhere]
      rw [collect] at hrow ⊢
      by_cases hc : c = '\n'
      · rw [if_pos hc] at hrow ⊢
        have hsize : (starts.push (base + c.utf8Size)).size - 1 = starts.size := by simp
        have hlast : (starts.push (base + c.utf8Size)).getD starts.size 0 = base + c.utf8Size := by
          simp
        have hbelow := ih (Nat.lt_of_lt_of_eq (Nat.succ_pos _) (Array.size_push _).symm)
          (by rw [hsize, hlast]) hrow
        rw [hsize, hlast, Nat.sub_self] at hbelow
        rw [if_pos hc, ← hbelow, Nat.sub_add_cancel hne]
      · rw [if_neg hc] at hrow ⊢
        rw [if_neg hc, ← ih hne (by omega) hrow]
        exact congrArg (Point.through · cs _) (congrArg (Point.mk _) (by dsimp only; omega))

theorem bisect_ofList (cs : List Char) (offset : Nat) :
    IsRow (ofList cs).starts offset ((ofList cs).bisect offset 0 (ofList cs).starts.size) := by
  have hsize : 0 < (ofList cs).starts.size := by
    rw [ofList, collect_eq]
    simp
  have hfirst : (ofList cs).starts.getD 0 0 = 0 := @getD_collect_old #[0] 0 Nat.one_pos 0 cs
  exact bisect_isRow _ (sorted_ofList cs) (by omega) hsize le_rfl (by omega)

theorem point_eq (cs : List Char) (offset : Nat) :
    (ofList cs).point offset = Point.through ⟨0, 0⟩ cs offset := by
  have hrow := bisect_ofList cs offset
  have hthrough : _ = Point.mk _ _ := @through_of_isRow #[0] Nat.one_pos 0 offset _ cs le_rfl
    (by rwa [Nat.zero_add])
  rw [Nat.zero_add] at hthrough
  exact hthrough.symm

end LineIndex

end ScriptTree
