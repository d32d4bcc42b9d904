import Mathlib.Data.List.DropRight

/-!
# Numbered lists

A list whose entries carry the numbers 1, 2, 3, ... under some function. An end of it is known by its
numbers: the last `w` entries, or the entries from a number on.
-/

namespace OrderBookEngine

variable {α : Type} {f : α → ℕ} {xs : List α}

/-- The entries are numbered 1, 2, 3, ... in order. -/
def NumberedBy (f : α → ℕ) (xs : List α) : Prop := xs.map f = List.range' 1 xs.length

namespace NumberedBy

/-- What is left behind the first `k` is numbered from `1 + k`. -/
theorem drop (h : NumberedBy f xs) (k : ℕ) :
    (xs.drop k).map f = List.range' (1 + k) (xs.length - k) := by
  rw [List.map_drop, h, List.drop_range', Nat.mul_one]

/-- The first `k` are numbered up to `k`. -/
theorem take (h : NumberedBy f xs) {k : ℕ} (hk : k ≤ xs.length) :
    (xs.take k).map f = List.range' 1 k := by
  rw [List.map_take, h, List.take_range'_of_length_ge hk]

/-- The numbers are those from 1 to the length. -/
theorem exists_iff (h : NumberedBy f xs) (n : ℕ) : (∃ x ∈ xs, f x = n) ↔ 1 ≤ n ∧ n ≤ xs.length := by
  rw [← List.mem_map, h, List.mem_range'_1]
  omega

/-- The last entry has the length for its number. -/
theorem getLast (h : NumberedBy f xs) : (xs.getLast?.map f).getD 0 = xs.length := by
  rw [← List.getLast?_map, h, List.getLast?_range']
  split_ifs with hempty
  · exact hempty.symm
  · show 1 + xs.length - 1 = xs.length
    omega

/-- The entries from a number on. -/
theorem filter (h : NumberedBy f xs) {n : ℕ} (hn : 1 ≤ n) :
    xs.filter (fun x => n ≤ f x) = xs.drop (n - 1) := by
  by_cases hlen : n - 1 ≤ xs.length
  · -- The first part has the smaller numbers, the second the others.
    have hbelow : (xs.take (n - 1)).filter (fun x => n ≤ f x) = [] := by
      refine List.filter_eq_nil_iff.mpr fun x hx hle => ?_
      have hmem := List.mem_map_of_mem (f := f) hx
      rw [h.take hlen, List.mem_range'_1] at hmem
      have hle := of_decide_eq_true hle
      omega
    have habove : (xs.drop (n - 1)).filter (fun x => n ≤ f x) = xs.drop (n - 1) := by
      refine List.filter_eq_self.mpr fun x hx => decide_eq_true ?_
      have hmem := List.mem_map_of_mem (f := f) hx
      rw [h.drop, List.mem_range'_1] at hmem
      omega
    calc xs.filter (fun x => n ≤ f x)
        = (xs.take (n - 1) ++ xs.drop (n - 1)).filter (fun x => n ≤ f x) := by
          rw [List.take_append_drop]
      _ = xs.drop (n - 1) := by rw [List.filter_append, hbelow, habove, List.nil_append]
  · rw [List.drop_eq_nil_of_le (by omega)]
    refine List.filter_eq_nil_iff.mpr fun x hx hle => ?_
    have hmem := (h.exists_iff (f x)).mp ⟨x, hx, rfl⟩
    have hle := of_decide_eq_true hle
    omega

/-- A beginning of what is behind the first `k` entries is numbered from there. -/
theorem map_of_isPrefix_drop (h : NumberedBy f xs) {k : ℕ} {ys : List α} (hys : ys <+: xs.drop k) :
    ys.map f = List.range' (k + 1) ys.length := by
  have hlen : ys.length ≤ xs.length - k := hys.length_le.trans List.length_drop.le
  have htake : ys = (xs.drop k).take ys.length := List.prefix_iff_eq_take.mp hys
  calc ys.map f = ((xs.drop k).take ys.length).map f := by rw [← htake]
    _ = (List.range' (1 + k) (xs.length - k)).take ys.length := by rw [List.map_take, h.drop]
    _ = List.range' (k + 1) ys.length := by rw [List.take_range'_of_length_ge hlen, Nat.add_comm]

/-- A beginning of the entries from a number on is numbered from there. -/
theorem map_of_isPrefix (h : NumberedBy f xs) {n : ℕ} (hn : 1 ≤ n) {ys : List α}
    (hys : ys <+: xs.filter fun x => n ≤ f x) : ys.map f = List.range' n ys.length := by
  rw [h.filter hn] at hys
  rw [h.map_of_isPrefix_drop hys, Nat.sub_add_cancel hn]

/-- An entry is among the last `w` if its number says so. -/
theorem exists_rtake_iff (h : NumberedBy f xs) (w n : ℕ) :
    (∃ x ∈ xs.rtake w, f x = n) ↔ xs.length - w < n ∧ n ≤ xs.length := by
  unfold List.rtake
  rw [← List.mem_map, h.drop, List.mem_range'_1]
  omega

/-- From a number among the last `w` on, only the last `w` count. -/
theorem filter_rtake (h : NumberedBy f xs) {w n : ℕ} (hn : xs.length - w < n) :
    (xs.rtake w).filter (fun x => n ≤ f x) = xs.filter (fun x => n ≤ f x) := by
  have hbelow : (xs.take (xs.length - w)).filter (fun x => n ≤ f x) = [] := by
    refine List.filter_eq_nil_iff.mpr fun x hx hle => ?_
    have hmem := List.mem_map_of_mem (f := f) hx
    rw [h.take (Nat.sub_le _ _), List.mem_range'_1] at hmem
    have hle := of_decide_eq_true hle
    omega
  calc (xs.rtake w).filter (fun x => n ≤ f x)
      = (xs.take (xs.length - w) ++ xs.rtake w).filter (fun x => n ≤ f x) := by
        rw [List.filter_append, hbelow, List.nil_append]
    _ = xs.filter (fun x => n ≤ f x) := by rw [List.rtake, List.take_append_drop]

/-- The number of the first of the last `w` entries; of the next one, when there is none. -/
theorem head_rtake (h : NumberedBy f xs) (w : ℕ) :
    ((xs.rtake w).head?.map f).getD (xs.length + 1) = xs.length - w + 1 := by
  rw [← List.head?_map, List.rtake, h.drop, List.head?_range']
  split_ifs with hempty
  · show xs.length + 1 = xs.length - w + 1
    omega
  · show 1 + (xs.length - w) = xs.length - w + 1
    omega

end NumberedBy

/-- Two lists are numbered alike, and an element is known by its number. -/
theorem prefix_of_numbered {α β : Type*} {number : α → β} {numbers : ℕ → β} {xs ys : List α}
    (hxs : xs.map number = (List.range xs.length).map numbers)
    (hys : ys.map number = (List.range ys.length).map numbers)
    (hsame : ∀ x ∈ xs, ∀ y ∈ ys, number x = number y → x = y) (hlength : xs.length ≤ ys.length) :
    xs <+: ys := by
  have hnumber : ∀ {zs : List α}, zs.map number = (List.range zs.length).map numbers →
      ∀ k (hk : k < zs.length), number zs[k] = numbers k := by
    intro zs hzs k hk
    have hget := congrArg (fun l : List β => l[k]?) hzs
    simpa [hk] using hget
  rw [List.prefix_iff_eq_take]
  refine List.ext_getElem (by rw [List.length_take]; omega) fun k hk hk' => ?_
  have hky : k < ys.length := hk.trans_le hlength
  rw [List.getElem_take]
  exact hsame _ (List.getElem_mem hk) _ (List.getElem_mem hky)
    ((hnumber hxs k hk).trans (hnumber hys k hky).symm)

end OrderBookEngine
