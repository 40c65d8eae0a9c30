import OpLog.Format.Frame
import OpLog.Source.TailWalk

/-!
# What the tail walker finds

The walker against the format: it steps over every complete possible frame, stops at a
torn one and reports where that frame starts (`walkFrames_exact`), and never reports an
offset inside complete frames, whatever follows them (`walkFrames_safe`).
-/
namespace OpLog.Format
open Library.FrameStream Library.GroupCode Source

/-! ## The size field in the window -/

theorem moreByte_eq_false {b : UInt8} : moreByte b = false ↔ (b ^^^ 0xc5) &&& 0x80 = 0 := by
  simp [moreByte]

/-- A complete size field of at most five bytes is read to its end. -/
theorem scanSize_complete {size : Bytes} {n : Nat} (h : Size size n) (more : Bytes) (k i acc : Nat)
    (short : k + size.length ≤ 5) (fits : acc < 2 ^ (7 * k)) :
    scanSize (size ++ more) i (7 * k) acc = .complete (acc + n * 2 ^ (7 * k)) (i + size.length) := by
  induction h generalizing k i acc with
  | last b hb =>
    unfold scanSize
    simp only [List.cons_append, List.nil_append, moreByte_eq_false.mp hb, if_true]
    change SizeScan.complete (acc ||| digitByte b <<< (7 * k)) (i + 1) = _
    rw [or_group acc _ _ fits]
    rfl
  | next b tail n hb value ih =>
    have go : (b ^^^ 0xc5) &&& 0x80 ≠ 0 := by simpa [moreByte] using hb
    have some_left := List.length_pos_iff.mpr value.ne_nil
    simp only [List.length_cons] at short
    unfold scanSize
    simp only [List.cons_append, go, if_false, if_neg (show ¬ 7 * k + 7 > 28 by omega)]
    change scanSize (tail ++ more) (i + 1) (7 * (k + 1)) (acc ||| digitByte b <<< (7 * k)) = _
    have power : 2 ^ (7 * (k + 1)) = 128 * 2 ^ (7 * k) := by
      rw [Nat.mul_add, Nat.pow_add, Nat.mul_comm]
    rw [or_group acc _ _ fits, ih _ _ _ (by omega) (group_lt acc _ k fits (digitByte_lt b)), power]
    congr 1
    · rw [Nat.add_mul, Nat.add_assoc, Nat.mul_comm 128 n, Nat.mul_assoc]
    · rw [List.length_cons]
      omega

/-- Size bytes that all announce another one: the window ends first, or the field is
longer than the walker accepts. -/
theorem scanSize_continuing (xs more : Bytes) (k i acc : Nat)
    (continuing : ∀ x ∈ xs, moreByte x = true) (short : k + xs.length ≤ 5) (room : k < 5) :
    (k + xs.length < 5 → scanSize xs i (7 * k) acc = .truncated) ∧
      (k + xs.length = 5 → scanSize (xs ++ more) i (7 * k) acc = .oversized) := by
  induction xs generalizing k i acc with
  | nil => exact ⟨fun _ => rfl, fun h => by simp at h; omega⟩
  | cons b xs ih =>
    have go : (b ^^^ 0xc5) &&& 0x80 ≠ 0 := by
      simpa [moreByte] using continuing b List.mem_cons_self
    simp only [List.length_cons] at short
    unfold scanSize
    simp only [List.cons_append, go, if_false, List.length_cons]
    by_cases last : k = 4
    · have alone : xs = [] := List.eq_nil_of_length_eq_zero (by omega)
      subst last alone
      exact ⟨fun h => by simp at h, fun _ => rfl⟩
    · simp only [if_neg (show ¬ 7 * k + 7 > 28 by omega)]
      rw [show 7 * k + 7 = 7 * (k + 1) from rfl]
      obtain ⟨cut, oversized⟩ := ih (k + 1) (i + 1) (acc ||| digitByte b <<< (7 * k))
        (fun x hx => continuing x (List.mem_cons_of_mem b hx)) (by omega) (by omega)
      exact ⟨fun h => cut (by omega), fun h => oversized (by omega)⟩

/-! ## One round of the walk -/

/-- The bytes of the window: it ends inside the file. -/
theorem window_eq (content : Bytes) (pos : Nat) :
    (content.drop pos).take (min 8 (content.length - pos)) = (content.drop pos).take 8 := by
  rw [← List.length_drop, List.take_eq_take_iff]
  omega

theorem window_head (content : Bytes) (pos : Nat) :
    ((content.drop pos).take 8).head? = (content.drop pos).head? := by
  cases content.drop pos <;> rfl

/-- The seek from the end of the window brings the reader to `next`, forwards or backwards. -/
theorem seek_next (content : Bytes) (behind next : Nat) :
    Reader.seekRelative ⟨content, behind⟩ ((next : Int) - (behind : Int)) = .ok ⟨content, next⟩ := by
  simp only [Reader.seekRelative]
  rw [if_pos (by omega)]
  congr 2
  omega

/-- At the head of every round the reader stands at `pos`, and the seek brings it to the
next `pos`. -/
theorem walkFrames_round (fuel pos : Nat) (content : Bytes) (inside : pos < content.length) :
    walkFrames (fuel + 1) content.length pos ⟨content, pos⟩ =
      if (content.drop pos).head? ≠ some 0xff then .ok none
      else match scanSize (((content.drop pos).drop 3).take 5) 3 0 0 with
        | .truncated => .ok (some pos)
        | .oversized => .ok none
        | .complete size i =>
          if pos + i + size > content.length then .ok (some pos)
          else walkFrames fuel content.length (pos + i + size) ⟨content, pos + i + size⟩ := by
  have sizes : ((content.drop pos).take 8).drop 3 = ((content.drop pos).drop 3).take 5 :=
    List.drop_take
  rw [walkFrames, if_pos inside]
  simp only [Reader.readExact, if_pos (show pos + min 8 (content.length - pos) ≤ content.length by omega),
    bind, Except.bind, pure, Except.pure, window_eq, window_head, sizes]
  split
  · rfl
  · cases scanSize (((content.drop pos).drop 3).take 5) 3 0 0 with
    | truncated => rfl
    | oversized => rfl
    | complete size i => simp only [seek_next]

theorem walkFrames_end (fuel : Nat) (content : Bytes) (reader : Reader) :
    walkFrames (fuel + 1) content.length content.length reader = .ok none := by
  simp [walkFrames, pure, Except.pure]

/-- A complete possible frame is stepped over. -/
theorem walkFrames_frame (fuel pos : Nat) (content f more : Bytes) (hf : PossibleFrame f)
    (here : content.drop pos = f ++ more) :
    walkFrames (fuel + 1) content.length pos ⟨content, pos⟩ =
      walkFrames fuel content.length (pos + f.length) ⟨content, pos + f.length⟩ := by
  obtain ⟨rnd, sum, size, payload, rfl, short, value⟩ := hf
  have total := congrArg List.length here
  simp only [List.length_drop, List.length_append, List.length_cons] at total
  have window : (size ++ (payload ++ more)).take 5 =
      size ++ (payload ++ more).take (5 - size.length) := by
    rw [List.take_append, List.take_of_length_le short]
  have scan := scanSize_complete value ((payload ++ more).take (5 - size.length)) 0 3 0 (by omega)
    (by decide)
  simp only [Nat.mul_zero, Nat.zero_add, Nat.pow_zero, Nat.mul_one] at scan
  have length :
      (0xff :: rnd :: sum :: (size ++ payload)).length = 3 + size.length + payload.length := by
    simp only [List.length_cons, List.length_append]
    omega
  rw [walkFrames_round fuel pos content (by omega), here, length]
  simp only [List.cons_append, List.head?_cons, ne_eq, not_true_eq_false, if_false,
    List.drop_succ_cons, List.drop_zero, List.append_assoc, window, scan]
  rw [if_neg (by omega), show pos + (3 + size.length) + payload.length =
    pos + (3 + size.length + payload.length) from Nat.add_assoc _ _ _]

/-- A torn possible frame at the end of the file is reported. -/
theorem walkFrames_torn (fuel pos : Nat) (content : Bytes)
    (torn : Torn PossibleFrame (content.drop pos)) :
    walkFrames (fuel + 1) content.length pos ⟨content, pos⟩ = .ok (some pos) := by
  obtain ⟨ne, s, hs, rnd, sum, size, payload, whole, short, value⟩ := torn
  have some_left := List.length_pos_iff.mpr ne
  rw [List.length_drop] at some_left
  have cut := List.length_pos_iff.mpr hs
  have total := congrArg List.length whole
  simp only [List.length_append, List.length_drop, List.length_cons] at total
  rw [walkFrames_round fuel pos content (by omega)]
  generalize ht : content.drop pos = t at *
  have head : t.head? = some 0xff := by
    obtain ⟨b, t', rfl⟩ := List.exists_cons_of_ne_nil ne
    simp only [List.cons_append, List.cons.injEq] at whole
    simp [whole.1]
  have body : t.drop 3 ++ s.drop (3 - t.length) = size ++ payload := by
    have := congrArg (List.drop 3) whole
    simpa [List.drop_append] using this
  rw [if_neg (by simp [head])]
  by_cases inside : (t.drop 3).length < size.length
  · -- the file ends inside the size field
    obtain ⟨init, last, split, continuing, -⟩ := value.split
    have sizes : (t.drop 3).length ≤ init.length := by
      have := congrArg List.length split
      simp only [List.length_append, List.length_singleton] at this
      omega
    have part : ∀ b ∈ t.drop 3, moreByte b = true := by
      intro b hb
      apply continuing
      have pre : t.drop 3 = init.take (t.drop 3).length := by
        have := congrArg (List.take (t.drop 3).length) body
        rw [List.take_left, split, List.append_assoc, List.take_append_of_le_length sizes] at this
        exact this
      rw [pre] at hb
      exact List.mem_of_mem_take hb
    have scan := (scanSize_continuing (t.drop 3) [] 0 3 0 part (by omega) (by decide)).1 (by omega)
    rw [List.take_of_length_le (by omega)]
    simp only [Nat.mul_zero] at scan
    simp only [scan]
  · -- the size field is whole, the payload is not
    obtain ⟨p, hp⟩ : ∃ p, t.drop 3 = size ++ p := by
      refine ⟨(t.drop 3).drop size.length, ?_⟩
      have := congrArg (List.take size.length) body
      rw [List.take_left, List.take_append_of_le_length (by omega)] at this
      conv_rhs => lhs; rw [← this]
      rw [List.take_append_drop]
    have window : (size ++ p).take 5 = size ++ p.take (5 - size.length) := by
      rw [List.take_append, List.take_of_length_le short]
    have scan := scanSize_complete value (p.take (5 - size.length)) 0 3 0 (by omega) (by decide)
    simp only [Nat.mul_zero, Nat.zero_add, Nat.pow_zero, Nat.mul_one] at scan
    rw [hp, window, scan]
    have : content.length - pos = t.length := by rw [← ht, List.length_drop]
    simp only
    rw [if_pos (by omega)]

/-- A torn frame with five size bytes that all announce another one is not recognised. -/
theorem walkFrames_oversized (fuel pos : Nat) (content rest size : Bytes) (rnd sum : UInt8)
    (here : content.drop pos = 0xff :: rnd :: sum :: (size ++ rest))
    (continuing : ∀ b ∈ size, moreByte b = true) (five : size.length = 5) :
    walkFrames (fuel + 1) content.length pos ⟨content, pos⟩ = .ok none := by
  have total := congrArg List.length here
  simp only [List.length_drop, List.length_cons] at total
  have window : (size ++ rest).take 5 = size ++ [] := by
    rw [← five, List.take_left, List.append_nil]
  have scan := (scanSize_continuing size [] 0 3 0 continuing (by omega) (by decide)).2 (by omega)
  rw [walkFrames_round fuel pos content (by omega), here]
  simp only [List.head?_cons, ne_eq, not_true_eq_false, if_false, List.drop_succ_cons,
    List.drop_zero, window]
  simp only [Nat.mul_zero] at scan
  rw [scan]

/-- A frame the walker does not recognise has five size bytes that all announce another. -/
theorem oversized_of_frame {f : Bytes} (hf : Frame f) (impossible : ¬ PossibleFrame f) :
    ∃ rnd sum five rest, f = 0xff :: rnd :: sum :: (five ++ rest) ∧ five.length = 5 ∧
      ∀ b ∈ five, moreByte b = true := by
  obtain ⟨rnd, sum, size, payload, rfl, -, value⟩ := hf
  have long : 5 < size.length := by
    by_contra short
    exact impossible ⟨rnd, sum, size, payload, rfl, by omega, value⟩
  obtain ⟨init, last, split, continuing, -⟩ := value.split
  have sizes : 5 ≤ init.length := by
    have := congrArg List.length split
    simp only [List.length_append, List.length_singleton] at this
    omega
  refine ⟨rnd, sum, init.take 5, init.drop 5 ++ [last] ++ payload, ?_, ?_, ?_⟩
  · rw [split]
    conv_lhs => rw [← List.take_append_drop 5 init]
    simp only [List.append_assoc]
  · rw [List.length_take]
    omega
  · intro b hb
    exact continuing b (List.mem_of_mem_take hb)

/-- Whatever starts with a complete frame, of any size, is stepped over or not judged. -/
theorem walkFrames_any_frame (fuel pos : Nat) (content f more : Bytes) (hf : Frame f)
    (here : content.drop pos = f ++ more) :
    walkFrames (fuel + 1) content.length pos ⟨content, pos⟩ = .ok none ∨
    walkFrames (fuel + 1) content.length pos ⟨content, pos⟩ =
      walkFrames fuel content.length (pos + f.length) ⟨content, pos + f.length⟩ := by
  by_cases possible : PossibleFrame f
  · exact Or.inr (walkFrames_frame fuel pos content f more possible here)
  · obtain ⟨rnd, sum, five, rest, rfl, length, continuing⟩ := oversized_of_frame hf possible
    refine Or.inl
      (walkFrames_oversized fuel pos content (rest ++ more) five rnd sum ?_ continuing length)
    rw [here]
    simp only [List.cons_append, List.append_assoc]

/-! ## The whole walk -/

/-- The walk never leaves the file behind it: an offset it reports is at or after the
one it stands at. -/
theorem walkFrames_ge (fuel pos p : Nat) (content : Bytes)
    (h : walkFrames fuel content.length pos ⟨content, pos⟩ = .ok (some p)) : pos ≤ p := by
  induction fuel generalizing pos with
  | zero => cases h
  | succ fuel ih =>
    by_cases inside : pos < content.length
    · rw [walkFrames_round fuel pos content inside] at h
      split at h
      · cases h
      · split at h
        · cases h
          exact Nat.le_refl _
        · cases h
        · split at h
          · cases h
            exact Nat.le_refl _
          · have := ih _ h
            omega
    · simp only [walkFrames, if_neg inside, pure, Except.pure] at h
      cases h

/-- Behind complete frames, of any size, the walk reports nothing inside them. -/
theorem walkFrames_safe (fs : List Bytes) (rest content : Bytes) (fuel pos p : Nat)
    (complete : Complete Frame fs) (here : content.drop pos = fs.flatten ++ rest)
    (h : walkFrames fuel content.length pos ⟨content, pos⟩ = .ok (some p)) :
    pos + fs.flatten.length ≤ p := by
  induction fs generalizing fuel pos with
  | nil => simpa using walkFrames_ge fuel pos p content h
  | cons f fs ih =>
    obtain ⟨hf, hfs⟩ := complete_cons.mp complete
    rw [List.flatten_cons, List.append_assoc] at here
    cases fuel with
    | zero => cases h
    | succ fuel =>
      rcases walkFrames_any_frame fuel pos content f _ hf here with none | next
      · rw [none] at h
        cases h
      · rw [next] at h
        have behind : content.drop (pos + f.length) = fs.flatten ++ rest := by
          rw [← List.drop_drop, here, List.drop_left]
        have := ih fuel (pos + f.length) hfs behind h
        rw [List.flatten_cons, List.length_append]
        omega

/-- On complete possible frames and a tail the walk reports where the tail starts, if
there is one. -/
theorem walkFrames_exact (fs : List Bytes) (t content : Bytes) (fuel pos : Nat)
    (complete : Complete PossibleFrame fs) (tail : Tail PossibleFrame t)
    (here : content.drop pos = fs.flatten ++ t) (inside : pos ≤ content.length)
    (enough : content.length < fuel + pos) :
    walkFrames fuel content.length pos ⟨content, pos⟩ =
      .ok (if t = [] then none else some (pos + fs.flatten.length)) := by
  induction fs generalizing fuel pos with
  | nil =>
    simp only [List.flatten_nil, List.nil_append] at here
    cases fuel with
    | zero => omega
    | succ fuel =>
      rcases tail with rfl | torn
      · have last : pos = content.length := by
          have := List.drop_eq_nil_iff.mp here
          omega
        rw [last, walkFrames_end]
        rfl
      · rw [walkFrames_torn fuel pos content (here ▸ torn), if_neg torn.1]
        rfl
  | cons f fs ih =>
    obtain ⟨hf, hfs⟩ := complete_cons.mp complete
    rw [List.flatten_cons, List.append_assoc] at here
    have some_bytes := List.length_pos_iff.mpr (possible_code.nonempty f hf)
    have total := congrArg List.length here
    simp only [List.length_drop, List.length_append] at total
    cases fuel with
    | zero => omega
    | succ fuel =>
      have behind : content.drop (pos + f.length) = fs.flatten ++ t := by
        rw [← List.drop_drop, here, List.drop_left]
      rw [walkFrames_frame fuel pos content f _ hf here,
        ih fuel (pos + f.length) hfs behind (by omega) (by omega), List.flatten_cons,
        List.length_append, Nat.add_assoc]

/-! ## The walker on a file -/

theorem truncatedFrameStart_magic (body : Bytes) :
    truncatedFrameStart ⟨MAGIC ++ body, 0⟩ (MAGIC ++ body).length =
      walkFrames ((MAGIC ++ body).length + 1) (MAGIC ++ body).length MAGIC.length
        ⟨MAGIC ++ body, MAGIC.length⟩ := by
  simp only [truncatedFrameStart, Reader.readExact, List.length_append, Nat.zero_add,
    List.drop_zero, List.take_left]
  rw [if_neg (by omega), if_pos (by omega)]
  rfl

/-- A file shorter than the magic, or one that starts otherwise, is left alone. -/
theorem truncatedFrameStart_foreign (content : Bytes) (foreign : content.take MAGIC.length ≠ MAGIC) :
    truncatedFrameStart ⟨content, 0⟩ content.length = .ok none := by
  by_cases short : content.length < MAGIC.length
  · unfold truncatedFrameStart
    rw [if_pos short]
  · unfold truncatedFrameStart Reader.readExact
    simp only [if_neg short, Nat.zero_add, List.drop_zero]
    rw [if_pos (by omega)]
    simp only [bind, Except.bind, if_pos foreign]
    rfl

/-- On a log file the walker reports the start of the torn frame, if there is one. -/
theorem truncatedFrameStart_exact (fs : List Bytes) (t : Bytes)
    (complete : Complete PossibleFrame fs) (tail : Tail PossibleFrame t) :
    truncatedFrameStart ⟨MAGIC ++ (fs.flatten ++ t), 0⟩ (MAGIC ++ (fs.flatten ++ t)).length =
      .ok (if t = [] then none else some (MAGIC ++ fs.flatten).length) := by
  rw [truncatedFrameStart_magic, walkFrames_exact fs t _ _ _ complete tail (List.drop_left)
    (by simp) (by omega), List.length_append]

/-- On a file that starts with the magic and complete frames the walker reports nothing
inside them. -/
theorem truncatedFrameStart_safe (fs : List Bytes) (rest : Bytes) (p : Nat)
    (complete : Complete Frame fs)
    (h : truncatedFrameStart ⟨MAGIC ++ (fs.flatten ++ rest), 0⟩
      (MAGIC ++ (fs.flatten ++ rest)).length = .ok (some p)) :
    (MAGIC ++ fs.flatten).length ≤ p := by
  rw [truncatedFrameStart_magic] at h
  rw [List.length_append]
  exact walkFrames_safe fs rest _ _ _ p complete List.drop_left h

/-! ## The walker never fails by itself -/

theorem scanSize_forward {xs : Bytes} {i shift acc size j : Nat}
    (h : scanSize xs i shift acc = .complete size j) : i < j := by
  induction xs generalizing i shift acc with
  | nil => cases h
  | cons b xs ih =>
    simp only [scanSize] at h
    split at h
    · cases h
      exact Nat.lt_succ_self i
    · split at h
      · cases h
      · exact Nat.lt_of_succ_lt (ih h)

theorem walkFrames_total (fuel pos : Nat) (content : Bytes) (inside : pos ≤ content.length)
    (enough : content.length < fuel + pos) :
    ∃ found, walkFrames fuel content.length pos ⟨content, pos⟩ = .ok found := by
  induction fuel generalizing pos with
  | zero => omega
  | succ fuel ih =>
    by_cases last : pos = content.length
    · rw [last]
      exact ⟨none, walkFrames_end fuel content _⟩
    · rw [walkFrames_round fuel pos content (by omega)]
      split
      · exact ⟨none, rfl⟩
      · split
        · exact ⟨some pos, rfl⟩
        · exact ⟨none, rfl⟩
        · rename_i size i found
          have forward := scanSize_forward found
          split
          · exact ⟨some pos, rfl⟩
          · exact ih (pos + i + size) (by omega) (by omega)

/-- Whatever the bytes of the file, the walk comes to a verdict. -/
theorem truncatedFrameStart_total (content : Bytes) :
    ∃ found, truncatedFrameStart ⟨content, 0⟩ content.length = .ok found := by
  by_cases magic : content.take MAGIC.length = MAGIC
  · have split : content = MAGIC ++ content.drop MAGIC.length := by
      conv_lhs => rw [← List.take_append_drop MAGIC.length content, magic]
    rw [split, truncatedFrameStart_magic]
    exact walkFrames_total _ _ _ (by simp) (by omega)
  · exact ⟨none, truncatedFrameStart_foreign content magic⟩

/-! ## Torn frames of any size -/

/-- A prefix whose size bytes so far all announce another one is torn. -/
theorem torn_continuing (rnd sum : UInt8) {xs : Bytes} (continuing : ∀ x ∈ xs, moreByte x = true)
    (short : xs.length < 5) : Torn PossibleFrame (0xff :: rnd :: sum :: xs) := by
  obtain ⟨n, value⟩ : ∃ n, Size (xs ++ [0xc5]) n := quantity_of_continuing xs 0xc5 continuing rfl
  refine ⟨by simp, [0xc5] ++ List.replicate n 0, by simp, rnd, sum, xs ++ [0xc5],
    List.replicate n 0, by simp, ?_, by simpa using value⟩
  rw [List.length_append, List.length_singleton]
  omega

/-- The same where not even the prefix need be whole. -/
theorem torn_of_continuing {t : Bytes} (marker : t.head? = some 0xff)
    (continuing : ∀ x ∈ t.drop 3, moreByte x = true) (short : (t.drop 3).length < 5) :
    Torn PossibleFrame t := by
  rcases t with _ | ⟨b, _ | ⟨rnd, _ | ⟨sum, xs⟩⟩⟩
  · cases marker
  · cases marker
    exact Torn.left (u := [0, 0]) (torn_continuing 0 0 (by simp) (by simp)) (by simp)
  · cases marker
    exact Torn.left (u := [0]) (torn_continuing rnd 0 (by simp) (by simp)) (by simp)
  · cases marker
    exact torn_continuing rnd sum continuing short

/-- Torn before its window is full, a frame of any size looks like a possible one: the size
field could still end in time. -/
theorem torn_short {t : Bytes} (torn : Torn Frame t) (short : t.length < 8) :
    Torn PossibleFrame t := by
  obtain ⟨ne, s, hs, rnd, sum, size, payload, whole, -, value⟩ := torn
  by_cases inside : (t.drop 3).length < size.length
  · obtain ⟨init, last, split, continuing, -⟩ := value.split
    have marker : t.head? = some 0xff := by
      cases t with
      | nil => exact absurd rfl ne
      | cons b t => exact congrArg some (List.cons.inj whole).1
    have body : t.drop 3 ++ s.drop (3 - t.length) = init ++ (last :: payload) := by
      have rest := congrArg (List.drop 3) whole
      rw [List.drop_append, split] at rest
      simpa using rest
    have sizes : (t.drop 3).length ≤ init.length := by
      have total := congrArg List.length split
      rw [List.length_append, List.length_singleton] at total
      omega
    have front : t.drop 3 = init.take (t.drop 3).length := by
      have fronts := congrArg (List.take (t.drop 3).length) body
      rwa [List.take_left, List.take_append_of_le_length sizes] at fronts
    apply torn_of_continuing marker
    · intro b member
      rw [front] at member
      exact continuing b (List.mem_of_mem_take member)
    · rw [List.length_drop]
      omega
  · refine ⟨ne, s, hs, rnd, sum, size, payload, whole, ?_, value⟩
    rw [List.length_drop] at inside
    omega

/-- Torn behind its window, a frame the walker does not recognise is left alone. -/
theorem truncatedFrameStart_oversized {f : Bytes} (hf : Frame f) (impossible : ¬ PossibleFrame f)
    (n : Nat) (window : 8 ≤ n) :
    truncatedFrameStart ⟨MAGIC ++ f.take n, 0⟩ (MAGIC ++ f.take n).length = .ok none := by
  obtain ⟨rnd, sum, five, rest, rfl, length, continuing⟩ := oversized_of_frame hf impossible
  rw [truncatedFrameStart_magic]
  apply walkFrames_oversized _ _ _ (rest.take (n - 8)) five rnd sum ?_ continuing length
  obtain ⟨m, rfl⟩ := Nat.exists_eq_add_of_le window
  rw [List.drop_left]
  simp only [show 8 + m = 5 + m + 1 + 1 + 1 by omega, List.take_succ_cons,
    show 5 + m + 1 + 1 + 1 - 8 = m by omega]
  rw [← length, List.take_length_add_append]

end OpLog.Format
