import OpLog.Format.TailWalk

/-!
# What a verdict of the tail walker means

The converse of `TailWalk`: an offset the walker reports is where a torn possible frame
starts, behind the magic and complete possible frames. So its verdict is exact for every byte
string (`truncatedFrameStart_iff`).
-/
namespace OpLog.Format
open Library.FrameStream Library.GroupCode Source

/-! ## The size field -/

/-- The scan runs out of bytes: all of them announce another one. -/
theorem scanSize_truncated {xs : Bytes} {i k acc : Nat} (room : k < 5)
    (h : scanSize xs i (7 * k) acc = .truncated) :
    (∀ x ∈ xs, moreByte x = true) ∧ k + xs.length < 5 := by
  induction xs generalizing i k acc with
  | nil => exact ⟨by simp, room⟩
  | cons b xs ih =>
    unfold scanSize at h
    dsimp only at h
    split at h
    · cases h
    · rename_i go
      split at h
      · cases h
      · rename_i fits
        obtain ⟨continuing, short⟩ := ih (k := k + 1) (by omega) h
        refine ⟨?_, by rw [List.length_cons]; omega⟩
        intro x member
        rcases List.mem_cons.mp member with rfl | later
        · simpa [moreByte] using go
        · exact continuing x later

/-- The scan ends: a complete size field of at most five bytes stands there. -/
theorem scanSize_found {xs : Bytes} {i k acc s j : Nat} (room : k < 5) (fits : acc < 2 ^ (7 * k))
    (h : scanSize xs i (7 * k) acc = .complete s j) :
    ∃ size n more, xs = size ++ more ∧ Size size n ∧ k + size.length ≤ 5 ∧
      s = acc + n * 2 ^ (7 * k) ∧ j = i + size.length := by
  induction xs generalizing i k acc with
  | nil => cases h
  | cons b xs ih =>
    have group := or_group acc (digitByte b) (7 * k) fits
    unfold scanSize at h
    dsimp only at h
    change (if (b ^^^ 0xc5) &&& 0x80 = 0 then
      SizeScan.complete (acc ||| digitByte b <<< (7 * k)) (i + 1) else _) = _ at h
    split at h
    · rename_i last
      cases h
      refine ⟨[b], _, xs, rfl, .last b (moreByte_eq_false.mpr last), room, group, rfl⟩
    · rename_i go
      split at h
      · cases h
      · rename_i fits'
        change scanSize xs (i + 1) (7 * (k + 1)) (acc ||| digitByte b <<< (7 * k)) = _ at h
        rw [group] at h
        obtain ⟨size, n, more, rfl, value, short, total, index⟩ :=
          ih (by omega) (group_lt acc _ k fits (digitByte_lt b)) h
        have power : 2 ^ (7 * (k + 1)) = 128 * 2 ^ (7 * k) := by
          rw [Nat.mul_add, Nat.pow_add, Nat.mul_comm]
        refine ⟨b :: size, digitByte b + 128 * n, more, rfl,
          .next b size n (by simpa [moreByte] using go) value, ?_, ?_, ?_⟩
        · rw [List.length_cons]
          omega
        · rw [total, power, Nat.add_mul, Nat.add_assoc, Nat.mul_comm 128 n, Nat.mul_assoc]
        · rw [index, List.length_cons]
          omega

/-! ## One round -/

/-- The file ends inside the prefix. -/
theorem torn_of_truncated {t : Bytes} (marker : t.head? = some 0xff)
    (h : scanSize ((t.drop 3).take 5) 3 0 0 = .truncated) : Torn PossibleFrame t := by
  obtain ⟨continuing, short⟩ := scanSize_truncated (k := 0) (by decide) h
  have all : (t.drop 3).take 5 = t.drop 3 := by
    rw [List.length_take] at short
    exact List.take_of_length_le (by omega)
  rw [all] at continuing short
  exact torn_of_continuing marker continuing (by simpa using short)

/-- The size field of the frame that starts here was read. -/
theorem prefix_of_complete {t : Bytes} {size i : Nat} (marker : t.head? = some 0xff)
    (h : scanSize ((t.drop 3).take 5) 3 0 0 = .complete size i) :
    ∃ rnd sum field more, t = 0xff :: rnd :: sum :: (field ++ more) ∧ field.length ≤ 5 ∧
      Size field size ∧ i = 3 + field.length := by
  obtain ⟨field, n, more, window, value, short, total, index⟩ :=
    scanSize_found (k := 0) (by decide) (by decide) h
  simp only [Nat.zero_add, Nat.mul_zero, Nat.pow_zero, Nat.mul_one] at total short
  subst total
  have body : t.drop 3 = field ++ (more ++ (t.drop 3).drop 5) := by
    rw [← List.append_assoc, ← window, List.take_append_drop]
  rcases t with _ | ⟨b, _ | ⟨rnd, _ | ⟨sum, xs⟩⟩⟩
  · cases marker
  · exact absurd (List.append_eq_nil_iff.mp body.symm).1 value.ne_nil
  · exact absurd (List.append_eq_nil_iff.mp body.symm).1 value.ne_nil
  · cases marker
    exact ⟨rnd, sum, field, _, congrArg (fun ys => 0xff :: rnd :: sum :: ys) body, short, value, index⟩

/-- The file ends inside the payload. -/
theorem torn_of_past_end {rnd sum : UInt8} {field more : Bytes} {size : Nat}
    (value : Size field size) (short : field.length ≤ 5) (past_end : more.length < size) :
    Torn PossibleFrame (0xff :: rnd :: sum :: (field ++ more)) := by
  refine ⟨by simp, List.replicate (size - more.length) 0, ?_, rnd, sum, field,
    more ++ List.replicate (size - more.length) 0, by simp, short, ?_⟩
  · simp only [ne_eq, List.replicate_eq_nil_iff]
    omega
  · rw [List.length_append, List.length_replicate, Nat.add_sub_cancel' (by omega)]
    exact value

/-- The payload is there. -/
theorem possible_of_within {rnd sum : UInt8} {field more : Bytes} {size : Nat}
    (value : Size field size) (short : field.length ≤ 5) (within : size ≤ more.length) :
    PossibleFrame (0xff :: rnd :: sum :: (field ++ more.take size)) := by
  refine ⟨rnd, sum, field, more.take size, rfl, short, ?_⟩
  rw [List.length_take, Nat.min_eq_left within]
  exact value

/-! ## The whole walk -/

/-- What the walk reports is the start of a torn possible frame behind complete ones. -/
theorem walkFrames_sound (fuel pos p : Nat) (content : Bytes)
    (h : walkFrames fuel content.length pos ⟨content, pos⟩ = .ok (some p)) :
    ∃ fs t, content.drop pos = fs.flatten ++ t ∧ Complete PossibleFrame fs ∧
      Torn PossibleFrame t ∧ p = pos + fs.flatten.length := by
  induction fuel generalizing pos with
  | zero => cases h
  | succ fuel ih =>
    by_cases inside : pos < content.length
    · rw [walkFrames_round fuel pos content inside] at h
      have here (torn : Torn PossibleFrame (content.drop pos)) (same : pos = p) :
          ∃ fs t, content.drop pos = fs.flatten ++ t ∧ Complete PossibleFrame fs ∧
            Torn PossibleFrame t ∧ p = pos + fs.flatten.length :=
        ⟨[], content.drop pos, rfl, complete_nil _, torn, same.symm⟩
      have behind : (content.drop pos).length = content.length - pos := List.length_drop
      split at h
      · cases h
      · rename_i marker
        rw [ne_eq, not_not] at marker
        split at h
        · rename_i scanned
          exact here (torn_of_truncated marker scanned) (by simpa using h)
        · cases h
        · rename_i size i scanned
          obtain ⟨rnd, sum, field, more, prefixed, short, value, index⟩ :=
            prefix_of_complete marker scanned
          have total := behind
          rw [prefixed] at total
          simp only [List.length_cons, List.length_append] at total
          split at h
          · rename_i past_end
            refine here ?_ (by simpa using h)
            rw [prefixed]
            exact torn_of_past_end value short (by omega)
          · rename_i within
            have whole := @possible_of_within rnd sum field more size value short (by omega)
            have length : (0xff :: rnd :: sum :: (field ++ more.take size)).length = i + size := by
              simp only [List.length_cons, List.length_append, List.length_take]
              omega
            obtain ⟨fs, t, rest, complete, torn, found⟩ := ih (pos + i + size) h
            refine ⟨_ :: fs, t, ?_, complete_cons.mpr ⟨whole, complete⟩, torn, ?_⟩
            · have split : content.drop pos =
                  (0xff :: rnd :: sum :: (field ++ more.take size)) ++ more.drop size := by
                rw [prefixed]
                simp
              have after : content.drop (pos + i + size) = more.drop size := by
                rw [Nat.add_assoc, ← List.drop_drop, split, ← length, List.drop_left]
              rw [split, ← after, rest, List.flatten_cons, List.append_assoc]
            · rw [found, List.flatten_cons, List.length_append, length]
              omega
    · simp only [walkFrames, if_neg inside, pure, Except.pure] at h
      cases h

/-- The verdict on any byte string: a cut where a torn possible frame starts behind the magic
and complete possible frames, and no cut otherwise. -/
theorem truncatedFrameStart_iff (content : Bytes) (p : Nat) :
    truncatedFrameStart ⟨content, 0⟩ content.length = .ok (some p) ↔
      ∃ fs t, content = MAGIC ++ (fs.flatten ++ t) ∧ Complete PossibleFrame fs ∧
        Torn PossibleFrame t ∧ p = (MAGIC ++ fs.flatten).length := by
  constructor
  · intro found
    by_cases magic : content.take MAGIC.length = MAGIC
    · have split : content = MAGIC ++ content.drop MAGIC.length := by
        conv_lhs => rw [← List.take_append_drop MAGIC.length content, magic]
      rw [split, truncatedFrameStart_magic, ← split] at found
      obtain ⟨fs, t, rest, complete, torn, same⟩ := walkFrames_sound _ _ _ _ found
      refine ⟨fs, t, by rw [← rest, ← split], complete, torn, ?_⟩
      rw [same, List.length_append]
    · rw [truncatedFrameStart_foreign content magic] at found
      cases found
  · intro torn_there
    obtain ⟨fs, t, rfl, complete, torn, rfl⟩ := torn_there
    rw [truncatedFrameStart_exact fs t complete (Or.inr torn), if_neg torn.1]

/-- A cut leaves nothing to cut. -/
theorem cut_twice {content : Bytes} {p : Nat}
    (cut : truncatedFrameStart ⟨content, 0⟩ content.length = .ok (some p)) :
    truncatedFrameStart ⟨content.take p, 0⟩ (content.take p).length = .ok none := by
  obtain ⟨fs, t, rfl, complete, torn, rfl⟩ := (truncatedFrameStart_iff content p).mp cut
  rw [← List.append_assoc, List.take_left]
  have exact_ := truncatedFrameStart_exact fs [] complete (Or.inl rfl)
  rwa [List.append_nil] at exact_

end OpLog.Format
