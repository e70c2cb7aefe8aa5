import Mathlib.Data.List.Perm.Basic
import Mathlib.Data.List.Range
import Mathlib.Order.Lattice

/-!
# Pages of an ordered listing

Rows are presented by a key, largest first, and read page by page, each page
from a presentation of its own. Where rows of one key stand on both sides of a
position, two presentations may differ in what comes before it; elsewhere they
do not. So pages lose and repeat nothing exactly if no tie crosses from one page
to the next.
-/

namespace Paging

variable {α ι : Type} [LinearOrder ι] {key : α → ι} {rows shown : List α} {limit : Nat}

/-- An order that asking for the largest key first leaves open. -/
structure Presents (key : α → ι) (rows shown : List α) : Prop where
  perm : shown.Perm rows
  sorted : shown.Pairwise fun x y => key y ≤ key x

def page (limit m : Nat) (shown : List α) : List α := (shown.drop (m * limit)).take limit

/-- Rows of one key stand on both sides of a position. -/
def TiedAt (key : α → ι) (rows : List α) (position : Nat) : Prop :=
  ∃ x ∈ rows, rows.countP (fun y => key x < key y) < position ∧
    position < rows.countP fun y => key x ≤ key y

/-! ### Presentations -/

/-- The rows that satisfy something that larger keys satisfy as well come first. -/
theorem exists_split {p : α → Bool} (hsorted : shown.Pairwise fun x y => key y ≤ key x)
    (hup : ∀ x y, key x ≤ key y → p x = true → p y = true) :
    ∃ first rest, shown = first ++ rest ∧ (∀ x ∈ first, p x = true) ∧
      ∀ x ∈ rest, p x = false := by
  induction shown with
  | nil => exact ⟨[], [], rfl, by simp, by simp⟩
  | cons x shown ih =>
    obtain ⟨hx, hsorted⟩ := List.pairwise_cons.mp hsorted
    cases hp : p x with
    | true =>
      obtain ⟨first, rest, rfl, hfirst, hrest⟩ := ih hsorted
      refine ⟨x :: first, rest, rfl, ?_, hrest⟩
      intro y hy
      obtain rfl | hy := List.mem_cons.mp hy
      · exact hp
      · exact hfirst y hy
    | false =>
      refine ⟨[], x :: shown, rfl, by simp, ?_⟩
      intro y hy
      obtain rfl | hy := List.mem_cons.mp hy
      · exact hp
      · cases hpy : p y with
        | false => rfl
        | true =>
          rw [hup y x (hx y hy) hpy] at hp
          cases hp

/-- They are as many in every presentation, and the same. -/
theorem Presents.split (h : Presents key rows shown) {p : α → Bool}
    (hup : ∀ x y, key x ≤ key y → p x = true → p y = true) :
    shown.take (rows.countP p) = shown.filter p ∧
      (∀ x ∈ shown.take (rows.countP p), p x = true) ∧
      ∀ x ∈ shown.drop (rows.countP p), p x = false := by
  obtain ⟨first, rest, rfl, hfirst, hrest⟩ := exists_split h.sorted hup
  have hfilter : (first ++ rest).filter p = first := by
    rw [List.filter_append, List.filter_eq_self.mpr hfirst,
      List.filter_eq_nil_iff.mpr fun x hx => by simp [hrest x hx], List.append_nil]
  have hcount : rows.countP p = first.length := by
    rw [← h.perm.countP_eq, List.countP_eq_length_filter, hfilter]
  rw [hcount, List.take_left, List.drop_left, hfilter]
  exact ⟨rfl, hfirst, hrest⟩

theorem lt_up (key : α → ι) (x : α) : ∀ y z : α, key y ≤ key z → decide (key x < key y) = true →
    decide (key x < key z) = true := by
  intro y z hle hy
  exact decide_eq_true (lt_of_lt_of_le (of_decide_eq_true hy) hle)

theorem le_up (key : α → ι) (x : α) : ∀ y z : α, key y ≤ key z → decide (key x ≤ key y) = true →
    decide (key x ≤ key z) = true := by
  intro y z hle hy
  exact decide_eq_true (le_trans (of_decide_eq_true hy) hle)

/-- What stands before a position without a tie does not depend on the
presentation. -/
theorem Presents.take_perm {shown' : List α} {position : Nat} (h : Presents key rows shown)
    (h' : Presents key rows shown') (hfree : ¬TiedAt key rows position) :
    (shown.take position).Perm (shown'.take position) := by
  by_cases hlong : rows.length ≤ position
  · rw [List.take_of_length_le (h.perm.length_eq ▸ hlong),
      List.take_of_length_le (h'.perm.length_eq ▸ hlong)]
    exact h.perm.trans h'.perm.symm
  cases position with
  | zero => exact List.Perm.refl _
  | succ n =>
    have hn : n < shown.length := by
      rw [h.perm.length_eq]
      omega
    let x := shown[n]
    have hx : x ∈ rows := h.perm.mem_iff.mp (List.getElem_mem hn)
    obtain ⟨-, -, hafter⟩ := h.split (le_up key x)
    obtain ⟨-, hbefore, -⟩ := h.split (lt_up key x)
    have hle : n < rows.countP fun y => decide (key x ≤ key y) := by
      by_contra hle
      have hmem : x ∈ shown.drop (rows.countP fun y => decide (key x ≤ key y)) := by
        rw [List.mem_drop_iff_getElem]
        exact ⟨n - rows.countP fun y => decide (key x ≤ key y), by omega, by
          simp only [show (rows.countP fun y => decide (key x ≤ key y)) +
            (n - rows.countP fun y => decide (key x ≤ key y)) = n by omega]; rfl⟩
      have hno := hafter x hmem
      simp at hno
    have hlt : rows.countP (fun y => decide (key x < key y)) < n + 1 := by
      by_contra hlt
      have hmem : x ∈ shown.take (rows.countP fun y => decide (key x < key y)) := by
        rw [List.mem_take_iff_getElem]
        exact ⟨n, by omega, rfl⟩
      have hyes := hbefore x hmem
      simp at hyes
    have hcount : rows.countP (fun y => decide (key x ≤ key y)) = n + 1 := by
      by_contra hne
      exact hfree ⟨x, hx, hlt, by omega⟩
    have hfirst := (h.split (le_up key x)).1
    have hfirst' := (h'.split (le_up key x)).1
    rw [hcount] at hfirst hfirst'
    rw [hfirst, hfirst']
    exact (h.perm.trans h'.perm.symm).filter _

/-- At a tie, the two rows around the position may change places. -/
theorem Presents.exists_swap {position : Nat} (h : Presents key rows shown)
    (htie : TiedAt key rows position) :
    ∃ before y z after, shown = before ++ y :: z :: after ∧ before.length + 1 = position ∧
      Presents key rows (before ++ z :: y :: after) := by
  obtain ⟨x, hx, hlt, hle⟩ := htie
  have hlength : rows.countP (fun y => decide (key x ≤ key y)) ≤ shown.length := by
    rw [h.perm.length_eq]
    exact List.countP_le_length
  have hkey : ∀ n (hn : n < shown.length), rows.countP (fun y => decide (key x < key y)) ≤ n →
      n < rows.countP (fun y => decide (key x ≤ key y)) → key shown[n] = key x := by
    intro n hn hfrom hto
    obtain ⟨-, hin, -⟩ := h.split (le_up key x)
    obtain ⟨-, -, hout⟩ := h.split (lt_up key x)
    have hge := hin shown[n] (by
      rw [List.mem_take_iff_getElem]
      exact ⟨n, by omega, rfl⟩)
    have hnot := hout shown[n] (by
      rw [List.mem_drop_iff_getElem]
      exact ⟨n - rows.countP fun y => decide (key x < key y), by omega, by
        simp only [show (rows.countP fun y => decide (key x < key y)) +
          (n - rows.countP fun y => decide (key x < key y)) = n by omega]⟩)
    exact le_antisymm (not_lt.mp (of_decide_eq_false hnot)) (of_decide_eq_true hge)
  have hy : position - 1 < shown.length := by omega
  have hz : position - 1 + 1 < shown.length := by omega
  have hsplit : shown = shown.take (position - 1) ++
      shown[position - 1] :: shown[position - 1 + 1] :: shown.drop (position - 1 + 1 + 1) := by
    rw [List.getElem_cons_drop, List.getElem_cons_drop, List.take_append_drop]
  have hkeys : key shown[position - 1] = key shown[position - 1 + 1] :=
    (hkey _ hy (by omega) (by omega)).trans (hkey _ hz (by omega) (by omega)).symm
  refine ⟨_, _, _, _, hsplit, ?_, ?_, ?_⟩
  · rw [List.length_take]
    omega
  · refine List.Perm.trans ?_ h.perm
    conv_rhs => rw [hsplit]
    exact List.Perm.append_left _ (List.Perm.swap _ _ _)
  · -- the keys stand as they stood
    have hsorted : (shown.map key).Pairwise fun a b => b ≤ a := List.pairwise_map.mpr h.sorted
    rw [hsplit, List.map_append, List.map_cons, List.map_cons, hkeys] at hsorted
    have hswapped : ((shown.take (position - 1) ++ shown[position - 1 + 1] ::
        shown[position - 1] :: shown.drop (position - 1 + 1 + 1)).map key).Pairwise
          fun a b => b ≤ a := by
      rw [List.map_append, List.map_cons, List.map_cons, hkeys]
      exact hsorted
    exact List.pairwise_map.mp hswapped

/-! ### Pages -/

theorem page_eq_nil_iff (hlimit : 0 < limit) {m : Nat} :
    page limit m shown = [] ↔ shown.length ≤ m * limit := by
  rw [page, List.take_eq_nil_iff, List.drop_eq_nil_iff]
  omega

/-- The rows fill a number of pages, and the next one is empty. -/
theorem exists_first_empty (hlimit : 0 < limit) (n : Nat) :
    ∃ M, n ≤ M * limit ∧ ∀ m < M, m * limit < n := by
  refine ⟨(n + limit - 1) / limit, ?_, ?_⟩
  · have hdiv := Nat.div_add_mod (n + limit - 1) limit
    have hmod := Nat.mod_lt (n + limit - 1) hlimit
    rw [Nat.mul_comm]
    omega
  · intro m hm
    have hle : (m + 1) * limit ≤ n + limit - 1 := (Nat.le_div_iff_mul_le hlimit).mp hm
    rw [Nat.succ_mul] at hle
    omega

/-- Where no tie crosses a page, pages put end to end are the rows that come
first in any presentation. -/
theorem flatMap_page_perm {shown : Nat → List α} (h : ∀ m, Presents key rows (shown m))
    (hfree : ∀ m, ¬TiedAt key rows (m * limit)) (M : Nat) {whole : List α}
    (hwhole : Presents key rows whole) :
    ((List.range M).flatMap fun m => page limit m (shown m)).Perm (whole.take (M * limit)) := by
  induction M generalizing whole with
  | zero => simp
  | succ M ih =>
    have hpage : (shown M).take (M * limit) ++ page limit M (shown M) =
        (shown M).take ((M + 1) * limit) := by
      rw [page, Nat.succ_mul, List.take_add]
    rw [List.range_succ, List.flatMap_append, List.flatMap_singleton]
    refine ((ih (h M)).append_right _).trans ?_
    rw [hpage]
    exact (h M).take_perm hwhole (hfree (M + 1))

/-- Where one does, a row can be shown on both pages. -/
theorem exists_repeated {m : Nat} (hlimit : 0 < limit) (hshown : Presents key rows shown)
    (htie : TiedAt key rows (m * limit)) :
    ∃ shown' y j, Presents key rows shown' ∧ y ∈ page limit j shown ∧
      y ∈ page limit (j + 1) shown' ∧ j + 1 = m := by
  obtain ⟨before, y, z, after, rfl, hlength, hpresents⟩ := hshown.exists_swap htie
  obtain ⟨j, rfl⟩ : ∃ j, m = j + 1 := by
    cases m with
    | zero => simp at hlength
    | succ j => exact ⟨j, rfl⟩
  rw [Nat.succ_mul] at hlength
  refine ⟨_, y, j, hpresents, ?_, ?_, rfl⟩
  · rw [page, List.drop_append_of_le_length (by omega), List.take_append]
    apply List.mem_append_right
    rw [List.length_drop]
    obtain ⟨n, hn⟩ : ∃ n, limit - (before.length - j * limit) = n + 1 := ⟨0, by omega⟩
    rw [hn, List.take_succ_cons]
    exact List.mem_cons_self
  · have hdrop : (before ++ z :: y :: after).drop ((j + 1) * limit) = y :: after := by
      rw [Nat.succ_mul, ← hlength, List.drop_append]
      simp
    obtain ⟨n, rfl⟩ : ∃ n, limit = n + 1 := ⟨limit - 1, by omega⟩
    rw [page, hdrop, List.take_succ_cons]
    exact List.mem_cons_self

end Paging
