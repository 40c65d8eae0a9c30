/-!
# Streams of self-delimiting frames

A stream is a concatenation of frames. Frames are words of a set in which no word
is a proper prefix of another, so a stream splits into frames in one way only, and
a stream whose last append was interrupted splits into complete frames and one torn
tail in one way only. Nothing here depends on how a frame marks its own end.
-/
namespace OpLog.Library.FrameStream

variable {α : Type}

/-- Words that delimit themselves: none is empty and none is a proper prefix of another. -/
structure PrefixCode (F : List α → Prop) : Prop where
  nonempty : ∀ x, F x → x ≠ []
  unique : ∀ x y s t, F x → F y → x ++ s = y ++ t → x = y

/-- A set of words contained in a self-delimiting one delimits itself too. -/
theorem PrefixCode.mono {F G : List α → Prop} (code : PrefixCode G) (sub : ∀ x, F x → G x) :
    PrefixCode F :=
  ⟨fun x hx => code.nonempty x (sub x hx),
   fun x y s t hx hy h => code.unique x y s t (sub x hx) (sub y hy) h⟩

/-- Every word of the list is a complete frame. -/
def Complete (F : List α → Prop) (fs : List (List α)) : Prop := ∀ f ∈ fs, F f

/-- A non-empty proper prefix of some frame: what an interrupted append leaves. -/
def Torn (F : List α → Prop) (t : List α) : Prop := t ≠ [] ∧ ∃ s, s ≠ [] ∧ F (t ++ s)

/-- The end of a stream after its last complete frame. -/
def Tail (F : List α → Prop) (t : List α) : Prop := t = [] ∨ Torn F t

@[simp] theorem complete_nil (F : List α → Prop) : Complete F [] := by
  intro f hf
  cases hf

theorem complete_cons {F : List α → Prop} {f : List α} {fs : List (List α)} :
    Complete F (f :: fs) ↔ F f ∧ Complete F fs := by
  simp [Complete]

theorem complete_append {F : List α → Prop} {fs gs : List (List α)} :
    Complete F (fs ++ gs) ↔ Complete F fs ∧ Complete F gs := by
  unfold Complete
  simp only [List.mem_append]
  constructor
  · intro h
    exact ⟨fun f hf => h f (Or.inl hf), fun f hf => h f (Or.inr hf)⟩
  · rintro ⟨hf, hg⟩ f (h | h)
    · exact hf f h
    · exact hg f h

/-- Appending whole frames one after another keeps a stream complete. -/
theorem complete_snoc {F : List α → Prop} {f : List α} {fs : List (List α)}
    (hfs : Complete F fs) (hf : F f) : Complete F (fs ++ [f]) := by
  rw [complete_append, complete_cons]
  exact ⟨hfs, hf, complete_nil F⟩

theorem Complete.mono {F G : List α → Prop} {fs : List (List α)} (h : Complete F fs)
    (sub : ∀ x, F x → G x) : Complete G fs :=
  fun f hf => sub f (h f hf)

/-- Cutting inside a frame leaves a torn one. -/
theorem torn_take {F : List α → Prop} {f : List α} (hf : F f) {n : Nat} (some_left : 0 < n)
    (inside : n < f.length) : Torn F (f.take n) := by
  refine ⟨?_, f.drop n, ?_, by rwa [List.take_append_drop]⟩
  · intro empty
    have := congrArg List.length empty
    simp only [List.length_take, List.length_nil] at this
    omega
  · intro empty
    have := congrArg List.length empty
    simp only [List.length_drop, List.length_nil] at this
    omega

/-- What comes first in a torn frame is torn as well. -/
theorem Torn.left {F : List α → Prop} {t u : List α} (torn : Torn F (t ++ u)) (some_left : t ≠ []) :
    Torn F t := by
  obtain ⟨-, s, hs, hF⟩ := torn
  refine ⟨some_left, u ++ s, ?_, by rwa [← List.append_assoc]⟩
  exact fun empty => hs (List.append_eq_nil_iff.mp empty).2

/-- Cutting a frame anywhere leaves the empty tail, a torn tail, or the frame itself. -/
theorem take_frame {F : List α → Prop} {f : List α} (hf : F f) (k : Nat) :
    Tail F (f.take k) ∨ f.take k = f := by
  by_cases whole : f.length ≤ k
  · exact Or.inr (List.take_of_length_le whole)
  · by_cases empty : k = 0
    · exact Or.inl (Or.inl (by rw [empty, List.take_zero]))
    · exact Or.inl (Or.inr (torn_take hf (by omega) (by omega)))

/-- A stream cut in two: the first part ends inside a frame, or where one ends. -/
theorem split_stream {F : List α → Prop} {fs : List (List α)} {t : List α} (complete : Complete F fs)
    (tail : Tail F t) {a b : List α} (same : a ++ b = fs.flatten ++ t) :
    (∃ gs u, a = gs.flatten ++ u ∧ Complete F gs ∧ Torn F u) ∨
    ∃ gs hs, fs = gs ++ hs ∧ a = gs.flatten ∧ b = hs.flatten ++ t := by
  induction fs generalizing a with
  | nil =>
    have whole : a ++ b = t := same
    by_cases none : a = []
    · subst none
      exact Or.inr ⟨[], [], rfl, rfl, same⟩
    · rcases tail with rfl | torn
      · exact absurd (List.append_eq_nil_iff.mp whole).1 none
      · subst whole
        exact Or.inl ⟨[], a, rfl, complete_nil F, torn.left none⟩
  | cons f fs ih =>
    obtain ⟨first, rest⟩ := complete_cons.mp complete
    rw [List.flatten_cons, List.append_assoc] at same
    rcases List.append_eq_append_iff.mp same with ⟨inside, frame, behind⟩ | ⟨later, split, behind⟩
    · by_cases none : a = []
      · subst none
        refine Or.inr ⟨[], f :: fs, rfl, rfl, ?_⟩
        rwa [List.flatten_cons, List.append_assoc]
      · by_cases boundary : inside = []
        · subst boundary
          rw [List.append_nil] at frame
          subst frame
          exact Or.inr ⟨[f], fs, rfl, by simp, behind⟩
        · subst frame
          exact Or.inl ⟨[], a, rfl, complete_nil F, none, inside, boundary, first⟩
    · rcases ih rest behind.symm with ⟨gs, u, parts, complete', torn⟩ | ⟨gs, hs, whole, parts, after⟩
      · refine Or.inl ⟨f :: gs, u, ?_, complete_cons.mpr ⟨first, complete'⟩, torn⟩
        rw [split, parts, List.flatten_cons, List.append_assoc]
      · refine Or.inr ⟨f :: gs, hs, by rw [whole, List.cons_append], ?_, after⟩
        rw [split, parts, List.flatten_cons]

section Code
variable {F : List α → Prop} (code : PrefixCode F)
include code

/-- A torn tail does not start with a complete frame. -/
theorem torn_no_frame {x t r : List α} (hx : F x) (ht : Torn F t) : t ≠ x ++ r := by
  intro none
  subst none
  obtain ⟨-, s, hs, hF⟩ := ht
  have whole : x = x ++ r ++ s :=
    code.unique x (x ++ r ++ s) (r ++ s) [] hx hF (by simp)
  have len := congrArg List.length whole
  simp only [List.length_append] at len
  have : s.length = 0 := by omega
  exact hs (List.eq_nil_of_length_eq_zero this)

theorem tail_no_frame {x t r : List α} (hx : F x) (ht : Tail F t) : t ≠ x ++ r := by
  rcases ht with rfl | ht
  · intro h
    exact code.nonempty x hx (List.append_eq_nil_iff.mp h.symm).1
  · exact torn_no_frame code hx ht

/-- A stream splits into complete frames and a torn tail in one way only. -/
theorem split_unique (fs gs : List (List α)) (t u : List α) (hfs : Complete F fs)
    (hgs : Complete F gs) (ht : Tail F t) (hu : Tail F u)
    (same : fs.flatten ++ t = gs.flatten ++ u) : fs = gs ∧ t = u := by
  induction fs generalizing gs with
  | nil =>
    cases gs with
    | nil => exact ⟨rfl, by simpa using same⟩
    | cons g gs =>
      have hg := (complete_cons.mp hgs).1
      simp only [List.flatten_nil, List.nil_append, List.flatten_cons, List.append_assoc] at same
      exact absurd same (tail_no_frame code hg ht)
  | cons f fs ih =>
    obtain ⟨hf, hfs⟩ := complete_cons.mp hfs
    cases gs with
    | nil =>
      simp only [List.flatten_nil, List.nil_append, List.flatten_cons, List.append_assoc] at same
      exact absurd same.symm (tail_no_frame code hf hu)
    | cons g gs =>
      obtain ⟨hg, hrest⟩ := complete_cons.mp hgs
      simp only [List.flatten_cons, List.append_assoc] at same
      have first : f = g := code.unique f g _ _ hf hg same
      subst first
      obtain ⟨rest, tail⟩ := ih gs hfs hrest (List.append_cancel_left same)
      exact ⟨by rw [rest], tail⟩

/-- Frames appended behind a torn tail never make the stream complete again: the
torn frame would have to end where the appended ones begin. -/
theorem torn_append_not_complete {t : List α} (ht : Torn F t) (fs gs : List (List α))
    (hfs : Complete F fs) : t ++ gs.flatten ≠ fs.flatten ++ gs.flatten := by
  intro same
  have cut : [].flatten ++ t = fs.flatten ++ [] := by
    simpa using List.append_cancel_right same
  obtain ⟨-, empty⟩ := split_unique code [] fs t [] (complete_nil F) hfs (Or.inr ht) (Or.inl rfl) cut
  exact ht.1 empty

/-- Complete frames at the front of a stream of complete frames are the first of them. -/
theorem frames_of_front {fs gs : List (List α)} {rest : List α} (complete : Complete F fs)
    (whole : Complete F gs) (same : fs.flatten ++ rest = gs.flatten) :
    ∃ hs, gs = fs ++ hs ∧ rest = hs.flatten := by
  have split : fs.flatten ++ rest = gs.flatten ++ [] := by rw [same, List.append_nil]
  rcases split_stream whole (Or.inl rfl) split with
    ⟨hs, u, inside, complete', torn⟩ | ⟨hs, later, rfl, front, rfl⟩
  · have cut : fs.flatten ++ [] = hs.flatten ++ u := by rw [List.append_nil, inside]
    obtain ⟨-, none⟩ :=
      split_unique code fs hs [] u complete complete' (Or.inl rfl) (Or.inr torn) cut
    exact absurd none.symm torn.1
  · have cut : fs.flatten ++ [] = hs.flatten ++ [] := by rw [front]
    obtain ⟨rfl, -⟩ := split_unique code fs hs [] [] complete (complete_append.mp whole).1
      (Or.inl rfl) (Or.inl rfl) cut
    exact ⟨later, rfl, by rw [List.append_nil]⟩

/-- The same where the stream is known to end with a frame and more than the first frames stand
in it. -/
theorem frames_ahead_of_last {fs gs : List (List α)} {x rest : List α} (complete : Complete F fs)
    (whole : Complete F (gs ++ [x])) (same : fs.flatten ++ rest = (gs ++ [x]).flatten)
    (more : rest ≠ []) : ∃ hs, gs = fs ++ hs ∧ Complete F hs ∧ rest = hs.flatten ++ x := by
  obtain ⟨hs, all, rfl⟩ := frames_of_front code complete whole same
  rcases List.eq_nil_or_concat hs with rfl | ⟨hs, last, rfl⟩
  · exact absurd rfl more
  · rw [List.concat_eq_append, ← List.append_assoc] at all
    obtain ⟨rfl, last_frame⟩ := List.append_inj' all rfl
    obtain rfl := List.singleton_inj.mp last_frame
    refine ⟨hs, rfl, (complete_append.mp (complete_append.mp whole).1).2, ?_⟩
    rw [List.concat_eq_append, List.flatten_append, List.flatten_singleton]

end Code

end OpLog.Library.FrameStream
