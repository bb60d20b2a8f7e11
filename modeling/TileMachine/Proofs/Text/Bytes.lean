import TileMachine.Text.Bytes

/-! Slices by byte positions. A slice is there exactly if a character starts at both
positions, and then it is what stands between them. -/
namespace TileMachine.Text

@[simp] theorem byteLength_nil : byteLength [] = 0 := rfl

@[simp] theorem byteLength_cons (c : Char) (cs : List Char) :
    byteLength (c :: cs) = c.utf8Size + byteLength cs := rfl

@[simp] theorem byteLength_append (front back : List Char) :
    byteLength (front ++ back) = byteLength front + byteLength back := by
  induction front with
  | nil => simp
  | cons c front ih => rw [List.cons_append, byteLength_cons, ih, byteLength_cons, Nat.add_assoc]

theorem byteLength_eq_length {cs : List Char} (h : ∀ c ∈ cs, c.utf8Size = 1) :
    byteLength cs = cs.length := by
  induction cs with
  | nil => rfl
  | cons c cs ih =>
    rw [List.forall_mem_cons] at h
    rw [byteLength_cons, h.1, ih h.2, List.length_cons, Nat.add_comm]

theorem byteLength_pos {cs : List Char} (h : cs ≠ []) : 0 < byteLength cs := by
  cases cs with
  | nil => contradiction
  | cons c cs => exact Nat.add_pos_left c.utf8Size_pos _

theorem byteLength_eq_utf8ByteSize (cs : List Char) :
    byteLength cs = (String.ofList cs).utf8ByteSize := by
  induction cs with
  | nil => rfl
  | cons c cs ih =>
    rw [byteLength_cons, ih, String.ofList_cons, String.utf8ByteSize_append,
      String.utf8ByteSize_singleton]

theorem splitAtByte?_append (front back : List Char) :
    splitAtByte? (byteLength front) (front ++ back) = some (front, back) := by
  induction front with
  | nil => rw [byteLength_nil, List.nil_append, splitAtByte?]
  | cons c front ih =>
    have hsize := c.utf8Size_pos
    have hn : byteLength (c :: front) = c.utf8Size + byteLength front - 1 + 1 := by
      rw [byteLength_cons]
      omega
    have hrest : c.utf8Size + byteLength front - 1 + 1 - c.utf8Size = byteLength front := by omega
    rw [hn, List.cons_append, splitAtByte?, if_pos (by omega), hrest, ih]
    rfl

theorem eq_append_of_splitAtByte? {n : Nat} {cs front back : List Char}
    (h : splitAtByte? n cs = some (front, back)) : cs = front ++ back ∧ byteLength front = n := by
  fun_induction splitAtByte? n cs generalizing front with
  | case1 cs =>
    cases h
    exact ⟨rfl, rfl⟩
  | case2 => contradiction
  | case3 n c cs hfits ih =>
    have ⟨⟨tail, rest⟩, hsplit, heq⟩ := Option.map_eq_some_iff.1 h
    cases heq
    have ⟨hcs, hlength⟩ := ih hsplit
    rw [hcs, byteLength_cons, hlength]
    exact ⟨rfl, by omega⟩
  | case4 => contradiction

theorem slice?_eq_some_iff {start stop : Nat} {cs middle : List Char} :
    slice? start stop cs = some middle ↔ ∃ front back, cs = front ++ middle ++ back ∧
      byteLength front = start ∧ byteLength (front ++ middle) = stop := by
  constructor
  · intro h
    unfold slice? at h
    split at h
    next hle =>
      have ⟨⟨front, tail⟩, hfront, h⟩ := Option.bind_eq_some_iff.1 h
      have ⟨⟨found, back⟩, hmiddle, h⟩ := Option.bind_eq_some_iff.1 h
      cases h
      have ⟨hcs, hstart⟩ := eq_append_of_splitAtByte? hfront
      have ⟨htail, hlength⟩ := eq_append_of_splitAtByte? hmiddle
      rw [htail, ← List.append_assoc] at hcs
      rw [← hstart] at hlength hle
      exact ⟨front, back, hcs, hstart, by rw [byteLength_append]; omega⟩
    next => contradiction
  · intro ⟨front, back, hcs, hstart, hstop⟩
    rw [byteLength_append] at hstop
    have hlength : stop - start = byteLength middle := by omega
    unfold slice?
    rw [if_pos (by omega), hlength, ← hstart, hcs, List.append_assoc, splitAtByte?_append]
    change (splitAtByte? (byteLength middle) (middle ++ back)).bind _ = _
    rw [splitAtByte?_append]
    rfl

end TileMachine.Text
