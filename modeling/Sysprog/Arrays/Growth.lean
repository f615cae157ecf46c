import Sysprog.Arrays.IntArrays

/-!
# How arrays of ints grow

`array_resize` doubles the capacity by way of an `int`, so it doubles it only
below 2^30; and twice nothing is nothing, so an array of capacity 0 never
gets room. Between these bounds an array is the list of the numbers added.
-/

namespace Sysprog.Arrays.Growth

open CheckedRuns IntArrays

set_option autoImplicit false

/-- `malloc` gave the buffer as many ints as the capacity says, which is what
a `size_t` of bytes can count, and the elements lie inside. -/
structure Sound (arr : ArrayInt) : Prop where
  length : arr.buf.length = arr.capacity
  bytes : arr.capacity < 2 ^ 62
  inside : arr.size ≤ arr.capacity

/-- `array_resize` makes the capacity exactly twice what it was, asks for that
many ints and keeps all the old ones. -/
structure Doubles (arr after : ArrayInt) : Prop where
  capacity : after.capacity = 2 * arr.capacity
  requested : requested arr = 2 * arr.capacity * sizeofInt
  length : after.buf.length = 2 * arr.capacity
  kept : after.buf.take arr.capacity = arr.buf
  size : after.size = arr.size

section Resize

variable {arr after : ArrayInt}

theorem resize_ok (sound : Sound arr) :
    arrayResize arr = .ok after ↔
      arr.capacity ≤ (malloc (requested arr)).length ∧ after.size = arr.size ∧
        after.capacity = toSizeT (newCap arr) ∧
        after.buf = arr.buf ++ (malloc (requested arr)).drop arr.capacity := by
  have bytes := sound.bytes
  have product : toSizeT (arr.capacity * sizeofInt) = arr.capacity * sizeofInt := by
    unfold toSizeT sizeofInt
    omega
  have count : arr.capacity * sizeofInt / sizeofInt = arr.capacity :=
    Nat.mul_div_cancel _ (by decide)
  have whole : arr.buf.take arr.capacity = arr.buf :=
    List.take_of_length_le (Nat.le_of_eq sound.length)
  unfold arrayResize
  rw [product, memcpy, count, whole]
  constructor
  · intro done
    obtain ⟨newBuf, copied, rest⟩ := bind_eq_ok.mp done
    split_ifs at copied with inside
    cases copied
    cases rest
    exact ⟨inside.2, rfl, rfl, rfl⟩
  · intro made
    obtain ⟨room, size, capacity, buf⟩ := made
    rw [if_pos ⟨Nat.le_of_eq sound.length.symm, room⟩, ok_bind, ← capacity, ← buf, ← size]

theorem new_cap_eq (sound : Sound arr) :
    newCap arr = toInt ((2 * arr.capacity : Nat) : Int) := by
  have bytes := sound.bytes
  unfold newCap toSizeT
  congr 1
  omega

theorem resize_doubles (sound : Sound arr) (small : arr.capacity < 2 ^ 30) :
    ∃ after, arrayResize arr = .ok after ∧ Doubles arr after := by
  have doubled : newCap arr = (2 * arr.capacity : Nat) := by
    rw [new_cap_eq sound, to_int_of_lt (by omega)]
  have bytes : requested arr = 2 * arr.capacity * sizeofInt := by
    rw [requested, doubled]
    unfold toSizeT sizeofInt
    omega
  have room : (malloc (requested arr)).length = 2 * arr.capacity := by
    rw [bytes, malloc_length]
  have capacity : 2 * arr.capacity = toSizeT (newCap arr) := by
    rw [doubled, to_size_t_of_lt (by omega)]
  let after : ArrayInt :=
    ⟨arr.buf ++ (malloc (requested arr)).drop arr.capacity, 2 * arr.capacity, arr.size⟩
  refine ⟨after, (resize_ok sound).mpr ⟨?_, rfl, capacity, rfl⟩, rfl, bytes, ?_, ?_, rfl⟩
  · omega
  · rw [List.length_append, List.length_drop, room, sound.length]
    omega
  · exact List.take_left' sound.length

/-- From 2^30 on the new buffer is too short for the old elements, or the new
capacity is not what it has room for. -/
theorem resize_unsound (sound : Sound arr) (large : 2 ^ 30 ≤ arr.capacity)
    (done : arrayResize arr = .ok after) : after.buf.length ≠ after.capacity := by
  have cap := new_cap_eq sound
  have wrapped := @to_int_of_le (2 * arr.capacity) (by omega)
  have bytes := sound.bytes
  rw [← cap] at wrapped
  obtain ⟨inside, _, capacity, buf⟩ := (resize_ok sound).mp done
  have room : (malloc (requested arr)).length = toSizeT (newCap arr * sizeofInt) / sizeofInt := by
    rw [malloc, List.length_replicate, requested]
  have total : after.buf.length = (malloc (requested arr)).length := by
    rw [buf, List.length_append, List.length_drop, sound.length]
    omega
  rw [total, room, capacity]
  cases wrapped with
  | inl negative => exact bytes_of_negative negative
  | inr short =>
      have fits : newCap arr < 2 ^ 62 := by omega
      have whole := to_size_t_of_nonneg short.1 fits
      rw [room, bytes_of_nonneg short.1 fits] at inside
      omega

/-- The doubling is exact below 2^30 and never from there on. -/
theorem resize_doubles_iff (sound : Sound arr) :
    (∃ after, arrayResize arr = .ok after ∧ Doubles arr after) ↔ arr.capacity < 2 ^ 30 := by
  constructor
  · intro doubles
    obtain ⟨after, done, doubles⟩ := doubles
    by_contra large
    have unsound := resize_unsound sound (Nat.not_lt.mp large) done
    rw [doubles.length, doubles.capacity] at unsound
    exact unsound rfl
  · exact resize_doubles sound

end Resize

section Adds

variable {arr after : ArrayInt} {number : Int}

theorem next_size (sound : Sound arr) : toSizeT (arr.size + 1) = arr.size + 1 := by
  have bytes := sound.bytes
  have inside := sound.inside
  unfold toSizeT
  omega

theorem add_with_room (sound : Sound arr) (room : arr.size < arr.capacity) :
    arrayAdd arr number = .ok { arr with
      buf := arr.buf.set arr.size (some number)
      size := arr.size + 1 } := by
  have inside : arr.size < arr.buf.length := by
    rw [sound.length]
    exact room
  unfold arrayAdd
  rw [next_size sound, if_neg (by omega), ok_bind]
  dsimp only
  rw [if_pos inside, next_size sound]

/-- A full array is resized first. -/
theorem add_full_ok (sound : Sound arr) (full : arr.size = arr.capacity) :
    arrayAdd arr number = .ok after ↔ ∃ resized, arrayResize arr = .ok resized ∧
      arr.size < resized.buf.length ∧
      after = ⟨resized.buf.set arr.size (some number), resized.capacity, arr.size + 1⟩ := by
  unfold arrayAdd
  rw [next_size sound, if_pos (by omega), bind_eq_ok]
  constructor
  · intro added
    obtain ⟨resized, done, stored⟩ := added
    have size := ((resize_ok sound).mp done).2.1
    dsimp only at stored
    rw [size, next_size sound] at stored
    split_ifs at stored with inside
    cases stored
    exact ⟨resized, done, inside, rfl⟩
  · intro added
    obtain ⟨resized, done, inside, made⟩ := added
    have size := ((resize_ok sound).mp done).2.1
    refine ⟨resized, done, ?_⟩
    dsimp only
    rw [size, next_size sound, if_pos inside, made]

/-- The number came behind the elements and moved none of them. -/
structure Appends (arr : ArrayInt) (number : Int) (after : ArrayInt) : Prop where
  capacity : after.capacity = if arr.size = arr.capacity then 2 * arr.capacity else arr.capacity
  size : after.size = arr.size + 1
  content : after.buf.take (arr.size + 1) = arr.buf.take arr.size ++ [some number]

theorem take_set_last {buf : Buffer} {size : Nat} (room : size < buf.length) :
    (buf.set size (some number)).take (size + 1) = buf.take size ++ [some number] := by
  have stored : (buf.set size (some number))[size]? = some (some number) :=
    List.getElem?_set_self room
  rw [List.take_add_one, stored, List.take_set_of_le (Nat.le_refl size)]
  rfl

/-- `array_add` appends unless it must double a capacity it cannot double. -/
theorem add_appends (sound : Sound arr) (number : Int)
    (growable : arr.size = arr.capacity → 1 ≤ arr.capacity ∧ arr.capacity < 2 ^ 30) :
    ∃ after, arrayAdd arr number = .ok after ∧ Sound after ∧ Appends arr number after := by
  have bytes := sound.bytes
  have inside := sound.inside
  by_cases full : arr.size = arr.capacity
  · obtain ⟨some, small⟩ := growable full
    obtain ⟨resized, done, doubles⟩ := resize_doubles sound small
    have length := doubles.length
    have room : arr.size < resized.buf.length := by omega
    refine ⟨_, (add_full_ok sound full).mpr ⟨resized, done, room, rfl⟩, ?_, ?_⟩
    · refine ⟨?_, ?_, ?_⟩
      · rw [List.length_set, length, doubles.capacity]
      · rw [doubles.capacity]
        omega
      · rw [doubles.capacity, full]
        dsimp only
        omega
    · refine ⟨?_, rfl, ?_⟩
      · rw [if_pos full, doubles.capacity]
      · rw [take_set_last room, full, doubles.kept, ← sound.length, List.take_length]
  · have room : arr.size < arr.capacity := by omega
    refine ⟨_, add_with_room sound room, ?_, ?_⟩
    · refine ⟨?_, bytes, room⟩
      rw [List.length_set, sound.length]
    · refine ⟨?_, rfl, ?_⟩
      · rw [if_neg full]
      · exact take_set_last (by rw [sound.length]; exact room)

theorem add_misses (sound : Sound arr) (full : arr.size = arr.capacity)
    (stuck : ¬ (1 ≤ arr.capacity ∧ arr.capacity < 2 ^ 30))
    (added : arrayAdd arr number = .ok after) :
    after.buf.length ≠ after.capacity ∧ after.capacity ≠ 2 * arr.capacity := by
  have bytes := sound.bytes
  obtain ⟨resized, done, room, made⟩ := (add_full_ok sound full).mp added
  by_cases none : arr.capacity = 0
  · obtain ⟨other, otherwise, doubles⟩ := resize_doubles sound (by omega)
    have same : other = resized := Except.ok.inj (otherwise.symm.trans done)
    have length := doubles.length
    rw [same] at length
    omega
  · have large : 2 ^ 30 ≤ arr.capacity := by omega
    have capacity := ((resize_ok sound).mp done).2.2.1
    rw [made]
    constructor
    · rw [List.length_set]
      exact resize_unsound sound large done
    · rw [capacity, new_cap_eq sound]
      exact to_size_t_to_int_ne (by omega) (by omega)

theorem add_all_within {numbers : List Int} (sound : Sound arr)
    (room : arr.size + numbers.length ≤ arr.capacity) :
    ∃ after, addAll arr numbers = .ok after ∧ Sound after ∧
      after.capacity = arr.capacity ∧ after.size = arr.size + numbers.length := by
  induction numbers generalizing arr with
  | nil => exact ⟨arr, rfl, sound, rfl, rfl⟩
  | cons number numbers ih =>
      rw [List.length_cons] at room
      have notFull : arr.size ≠ arr.capacity := by omega
      obtain ⟨next, added, nextSound, appends⟩ :=
        add_appends sound number (fun full => absurd full notFull)
      have capacity := appends.capacity
      have size := appends.size
      rw [if_neg notFull] at capacity
      obtain ⟨after, rest, afterSound, afterCapacity, afterSize⟩ := ih nextSound (by omega)
      refine ⟨after, ?_, afterSound, afterCapacity.trans capacity, ?_⟩
      · rw [add_all_cons, added, ok_bind, rest]
      · rw [afterSize, size, List.length_cons]
        omega

end Adds

/-- So many times over, filling the array and adding one number more doubles
its capacity. -/
def GrowsThrough : Nat → ArrayInt → Prop
  | 0, _ => True
  | doublings + 1, arr => ∀ numbers : List Int,
      arr.size + numbers.length = arr.capacity + 1 → ∃ after, addAll arr numbers = .ok after ∧
        after.capacity = 2 * arr.capacity ∧ arr.capacity < after.capacity ∧
        GrowsThrough doublings after

section Doublings

variable {arr after : ArrayInt}

/-- The last of these numbers comes to a full array. -/
theorem add_past_capacity {numbers : List Int} (sound : Sound arr)
    (past : arr.size + numbers.length = arr.capacity + 1) :
    ∃ full number, Sound full ∧ full.size = full.capacity ∧ full.capacity = arr.capacity ∧
      addAll arr numbers = arrayAdd full number := by
  have inside := sound.inside
  cases numbers.eq_nil_or_concat with
  | inl none =>
      rw [none, List.length_nil] at past
      omega
  | inr some =>
      obtain ⟨earlier, number, rfl⟩ := some
      rw [List.concat_eq_append] at past ⊢
      rw [List.length_append, List.length_singleton] at past
      obtain ⟨full, added, fullSound, capacity, size⟩ :=
        add_all_within sound (show arr.size + earlier.length ≤ arr.capacity by omega)
      refine ⟨full, number, fullSound, by omega, capacity, ?_⟩
      rw [add_all_append, added, ok_bind, add_all_one]

theorem past_capacity_doubles {numbers : List Int} (sound : Sound arr) (some : 1 ≤ arr.capacity)
    (small : arr.capacity < 2 ^ 30) (past : arr.size + numbers.length = arr.capacity + 1) :
    ∃ after, addAll arr numbers = .ok after ∧ Sound after ∧
      after.capacity = 2 * arr.capacity := by
  obtain ⟨full, number, fullSound, isFull, capacity, last⟩ := add_past_capacity sound past
  rw [← capacity] at some small
  obtain ⟨after, added, afterSound, appends⟩ :=
    add_appends fullSound number (fun _ => ⟨some, small⟩)
  have doubled := appends.capacity
  rw [if_pos isFull, capacity] at doubled
  exact ⟨after, last.trans added, afterSound, doubled⟩

theorem small_of_doubled {numbers : List Int} (sound : Sound arr)
    (past : arr.size + numbers.length = arr.capacity + 1)
    (added : addAll arr numbers = .ok after) (doubled : after.capacity = 2 * arr.capacity) :
    arr.capacity < 2 ^ 30 := by
  obtain ⟨full, number, fullSound, isFull, capacity, last⟩ := add_past_capacity sound past
  by_contra large
  have stuck : ¬ (1 ≤ full.capacity ∧ full.capacity < 2 ^ 30) := by
    rw [capacity]
    exact fun growable => large growable.2
  rw [last] at added
  exact (add_misses fullSound isFull stuck added).2 (by rw [doubled, capacity])

theorem grows_succ_iff {doublings : Nat} {left : Prop} (sound : Sound arr)
    (some : 1 ≤ arr.capacity) (rest : ∀ after, Sound after →
      after.capacity = 2 * arr.capacity → (GrowsThrough doublings after ↔ left)) :
    GrowsThrough (doublings + 1) arr ↔ arr.capacity < 2 ^ 30 ∧ left := by
  have inside := sound.inside
  constructor
  · intro grows
    have past : arr.size + (List.replicate (arr.capacity + 1 - arr.size) (0 : Int)).length =
        arr.capacity + 1 := by
      rw [List.length_replicate]
      omega
    obtain ⟨after, added, doubled, _, grown⟩ := grows _ past
    have small := small_of_doubled sound past added doubled
    obtain ⟨same, again, afterSound, _⟩ := past_capacity_doubles sound some small past
    have equal : same = after := Except.ok.inj (again.symm.trans added)
    rw [equal] at afterSound
    exact ⟨small, (rest after afterSound doubled).mp grown⟩
  · intro holds numbers past
    obtain ⟨after, added, afterSound, doubled⟩ :=
      past_capacity_doubles sound some holds.1 past
    exact ⟨after, added, doubled, by omega, (rest after afterSound doubled).mpr holds.2⟩

theorem grows_through_iff (sound : Sound arr) (some : 1 ≤ arr.capacity) (doublings : Nat) :
    GrowsThrough (doublings + 1) arr ↔ arr.capacity * 2 ^ doublings < 2 ^ 30 := by
  induction doublings generalizing arr with
  | zero =>
      rw [grows_succ_iff sound some (fun _ _ _ => Iff.rfl), Nat.pow_zero, Nat.mul_one]
      exact and_iff_left trivial
  | succ doublings ih =>
      have left : ∀ after, Sound after → after.capacity = 2 * arr.capacity →
          (GrowsThrough (doublings + 1) after ↔ arr.capacity * 2 ^ (doublings + 1) < 2 ^ 30) := by
        intro after afterSound doubled
        have product : 2 * arr.capacity * 2 ^ doublings = arr.capacity * 2 ^ (doublings + 1) := by
          rw [Nat.pow_succ', Nat.mul_left_comm, Nat.mul_assoc]
        rw [ih afterSound (by omega), doubled, product]
      have larger : arr.capacity ≤ arr.capacity * 2 ^ (doublings + 1) :=
        Nat.le_mul_of_pos_right _ (Nat.two_pow_pos _)
      rw [grows_succ_iff sound some left]
      exact ⟨And.right, fun small => ⟨Nat.lt_of_le_of_lt larger small, small⟩⟩

/-- Doubling loses no bits below 2^30 and always does from there on, so the
array grows through exactly the doublings that start below it. -/
theorem doublings_exact_iff (sound : Sound arr) (some : 1 ≤ arr.capacity) :
    ((∃ after, arrayResize arr = .ok after ∧ Doubles arr after) ↔ arr.capacity < 2 ^ 30) ∧
      ∀ doublings, GrowsThrough (doublings + 1) arr ↔
        arr.capacity * 2 ^ doublings < 2 ^ 30 :=
  ⟨resize_doubles_iff sound, grows_through_iff sound some⟩

theorem init_sound {size : Nat} (fits : size < 2 ^ 62) : Sound (arrayInit size) :=
  ⟨init_length.mpr fits, fits, Nat.zero_le size⟩

theorem two_ints_double :
    ((∃ after, arrayResize (arrayInit 2) = .ok after ∧ Doubles (arrayInit 2) after) ↔ 2 < 2 ^ 30) ∧
      ∀ doublings, GrowsThrough (doublings + 1) (arrayInit 2) ↔ 2 * 2 ^ doublings < 2 ^ 30 :=
  doublings_exact_iff (init_sound (by decide)) (by decide)

/-- An `int` turns 2^31 into -2^31, and a `size_t` that into 2^64 - 2^31. -/
theorem doubling_past_int :
    1 ≤ (arrayInit (2 ^ 30)).capacity ∧ 2 * (arrayInit (2 ^ 30)).capacity * sizeofInt < 2 ^ 64 ∧
      newCap (arrayInit (2 ^ 30)) = -2 ^ 31 ∧
      (∀ after, arrayResize (arrayInit (2 ^ 30)) = .ok after →
        after.capacity = 2 ^ 64 - 2 ^ 31) ∧
      ¬ ∃ after, arrayResize (arrayInit (2 ^ 30)) = .ok after ∧
        Doubles (arrayInit (2 ^ 30)) after := by
  have sound : Sound (arrayInit (2 ^ 30)) := init_sound (by decide)
  have capacity : newCap (arrayInit (2 ^ 30)) = -2 ^ 31 := by
    rw [new_cap_eq sound]
    decide +kernel
  refine ⟨by decide, by decide, capacity, ?_, ?_⟩
  · intro after done
    rw [((resize_ok sound).mp done).2.2.1, capacity]
    decide +kernel
  · intro doubles
    exact absurd ((resize_doubles_iff sound).mp doubles) (by decide)

end Doublings

end Sysprog.Arrays.Growth
