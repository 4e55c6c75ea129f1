import DeclLint.Proofs.Correction.Splice
import DeclLint.Source.Piece

/-!
# What the bytes of a text tell

A reader that goes through a text byte by byte sees an ASCII character as the byte that it
is, and any other character as several bytes, none of which is ASCII.  So a test for some
ASCII characters can be made on bytes (`Judges`), and a reader may stand inside of a
character without taking one of its bytes for anything.

* `utf8EncodeChar_cases` — the bytes of a character;
* `Judges.takeWhile_utf8Bytes` — a run of characters, read on bytes;
* `isPrefixOf_utf8Bytes` — a word of ASCII characters, looked for on bytes;
* `Ahead.pass` — a character that a reader does not look at.
-/

namespace DeclLint

@[simp] theorem utf8Bytes_nil : utf8Bytes [] = [] := rfl

theorem utf8Bytes_cons (c : Char) (cs : List Char) :
    utf8Bytes (c :: cs) = String.utf8EncodeChar c ++ utf8Bytes cs := rfl

/-- An ASCII character is one byte; no byte of another one is ASCII. -/
theorem utf8EncodeChar_cases (c : Char) :
    (c.toNat < 0x80 ∧ String.utf8EncodeChar c = [c.toUInt8]) ∨
      (0x80 ≤ c.toNat ∧ ∀ b ∈ String.utf8EncodeChar c, 0x80 ≤ b) := by
  have hval : c.val.toNat = c.toNat := rfl
  by_cases hc : c.toNat < 0x80
  · refine .inl ⟨hc, ?_⟩
    have hsize : c.utf8Size = 1 := by
      rw [Char.utf8Size_eq_one_iff, UInt32.le_iff_toNat_le]
      exact Nat.le_of_lt_succ hc
    rw [String.utf8EncodeChar_eq_singleton hsize]
    rfl
  · refine .inr ⟨Nat.le_of_not_lt hc, fun b hb => ?_⟩
    rw [UInt8.le_iff_toNat_le]
    unfold String.utf8EncodeChar at hb
    simp only [hval] at hb
    rw [if_neg (by omega)] at hb
    split at hb
    · simp only [List.mem_cons, List.not_mem_nil, or_false] at hb
      rcases hb with rfl | rfl <;> rw [UInt8.toNat_ofNat'] <;> simp <;> omega
    split at hb
    · simp only [List.mem_cons, List.not_mem_nil, or_false] at hb
      rcases hb with rfl | rfl | rfl <;> rw [UInt8.toNat_ofNat'] <;> simp <;> omega
    · simp only [List.mem_cons, List.not_mem_nil, or_false] at hb
      rcases hb with rfl | rfl | rfl | rfl <;> rw [UInt8.toNat_ofNat'] <;> simp <;> omega

theorem utf8EncodeChar_of_lt {c : Char} (h : c.toNat < 0x80) :
    String.utf8EncodeChar c = [c.toUInt8] := by
  rcases utf8EncodeChar_cases c with ⟨-, hbytes⟩ | ⟨hc, -⟩
  · exact hbytes
  · omega

theorem utf8Bytes_replicate {c : Char} (h : c.toNat < 0x80) (n : Nat) :
    utf8Bytes (List.replicate n c) = List.replicate n c.toUInt8 := by
  induction n with
  | zero => rfl
  | succ n ih =>
      rw [List.replicate_succ, utf8Bytes_cons, ih, utf8EncodeChar_of_lt h]
      rfl

theorem utf8Size_of_lt {c : Char} (h : c.toNat < 0x80) : c.utf8Size = 1 := by
  rw [← String.length_utf8EncodeChar, utf8EncodeChar_of_lt h]
  rfl

/-- Whether each of some characters is one byte. -/
def allAscii (cs : List Char) : Bool := cs.all fun c => decide (c.toNat < 0x80)

theorem allAscii_cons {c : Char} {cs : List Char} :
    allAscii (c :: cs) = true ↔ c.toNat < 0x80 ∧ allAscii cs = true := by
  rw [allAscii, List.all_cons, Bool.and_eq_true, decide_eq_true_eq]
  rfl

theorem utf8Size_eq_length {cs : List Char} (h : allAscii cs = true) :
    utf8Size cs = cs.length := by
  induction cs with
  | nil => rfl
  | cons c cs ih =>
      obtain ⟨hc, hrest⟩ := allAscii_cons.mp h
      rw [utf8Size_cons, utf8Size_of_lt hc, ih hrest, List.length_cons, Nat.add_comm]

theorem toUInt8_lt {c : Char} (h : c.toNat < 0x80) : ¬ 0x80 ≤ c.toUInt8 := by
  rw [UInt8.le_iff_toNat_le, Char.toUInt8, UInt32.toNat_toUInt8]
  have hval : c.val.toNat = c.toNat := rfl
  rw [hval, Nat.mod_eq_of_lt (by omega)]
  have hbound : (0x80 : UInt8).toNat = 0x80 := rfl
  omega

/-- ASCII characters are told by their bytes. -/
theorem toUInt8_beq {c d : Char} (hc : c.toNat < 0x80) (hd : d.toNat < 0x80) :
    (c.toUInt8 == d.toUInt8) = (c == d) := by
  rw [Bool.eq_iff_iff, beq_iff_eq, beq_iff_eq]
  constructor
  · intro h
    have hbytes := congrArg UInt8.toNat h
    have htoNat : ∀ e : Char, e.toUInt8.toNat = e.toNat % 256 := fun e => by
      rw [Char.toUInt8, UInt32.toNat_toUInt8]
      rfl
    rw [htoNat, htoNat, Nat.mod_eq_of_lt (by omega), Nat.mod_eq_of_lt (by omega)] at hbytes
    exact Char.toNat_inj.mp hbytes
  · rintro rfl
    rfl

/-- Other bytes are none of an ASCII character. -/
theorem beq_toUInt8_of_le {b : UInt8} {d : Char} (hb : 0x80 ≤ b) (hd : d.toNat < 0x80) :
    (b == d.toUInt8) = false := by
  rw [beq_eq_false_iff_ne]
  rintro rfl
  exact toUInt8_lt hd hb

theorem ne_of_le {c d : Char} (hc : 0x80 ≤ c.toNat) (hd : d.toNat < 0x80) : c ≠ d := by
  rintro rfl
  omega

/-- A test of bytes that says of every byte of a character what a test of characters says of
the character. -/
def Judges (p : UInt8 → Bool) (q : Char → Bool) : Prop :=
  ∀ c, ∀ b ∈ String.utf8EncodeChar c, p b = q c

theorem judges_eq {d : Char} (hd : d.toNat < 0x80) : Judges (· == d.toUInt8) (· == d) := by
  intro c b hb
  dsimp only
  rcases utf8EncodeChar_cases c with ⟨hc, hbytes⟩ | ⟨hc, hbytes⟩
  · rw [hbytes, List.mem_singleton] at hb
    rw [hb, toUInt8_beq hc hd]
  · rw [beq_toUInt8_of_le (hbytes b hb) hd, beq_false_of_ne (ne_of_le hc hd)]

/-- Some ASCII characters are told by their bytes. -/
theorem judges_contains {marks : List Char} (hmarks : allAscii marks = true) :
    Judges (marks.map Char.toUInt8).contains marks.contains := by
  intro c b hb
  induction marks with
  | nil => rfl
  | cons d marks ih =>
      obtain ⟨hd, hrest⟩ := allAscii_cons.mp hmarks
      have hfirst : (b == d.toUInt8) = (c == d) := judges_eq hd c b hb
      rw [List.map_cons, List.contains_cons, List.contains_cons, hfirst, ih hrest]

/-- Bytes of words. -/
def isWordByte (b : UInt8) : Bool :=
  decide (0x30 ≤ b ∧ b ≤ 0x39) || decide (0x41 ≤ b ∧ b ≤ 0x5a) || decide (0x61 ≤ b ∧ b ≤ 0x7a) ||
    b == '_'.toUInt8 || b == '$'.toUInt8 || decide (0x80 ≤ b)

/-- A byte is part of a word if its character is. -/
theorem judges_isWordByte : Judges isWordByte isWordChar := by
  intro c b hb
  rcases utf8EncodeChar_cases c with ⟨hc, hbytes⟩ | ⟨hc, hbytes⟩
  · have hascii : ∀ n : Fin 0x80,
        isWordByte (Char.ofNat n).toUInt8 = isWordChar (Char.ofNat n) := by decide
    rw [hbytes, List.mem_singleton] at hb
    have hword := hascii ⟨c.toNat, hc⟩
    rwa [Char.ofNat_toNat, ← hb] at hword
  · have hchar : isWordChar c = true := by
      have hval : (0x80 : UInt32) ≤ c.val := by
        rw [UInt32.le_iff_toNat_le]
        exact hc
      simp [isWordChar, hval]
    have hbyte : isWordByte b = true := by simp [isWordByte, hbytes b hb]
    rw [hbyte, hchar]

/-- Whatever is outside of words is ASCII. -/
theorem toNat_lt_of_isWordChar {c : Char} (h : isWordChar c = false) : c.toNat < 0x80 := by
  simp only [isWordChar, Bool.or_eq_false_iff, decide_eq_false_iff_not] at h
  have hval : c.val.toNat < (0x80 : UInt32).toNat := by
    rw [← UInt32.lt_iff_toNat_lt]
    exact UInt32.not_le.mp h.2
  exact hval

namespace Judges

variable {p : UInt8 → Bool} {q : Char → Bool}

theorem not (h : Judges p q) : Judges (fun b => !p b) fun c => !q c :=
  fun c b hb => congrArg Bool.not (h c b hb)

/-- **Runs.**  What a test of bytes keeps are the bytes of what the test of characters
keeps. -/
theorem takeWhile_utf8Bytes (h : Judges p q) (cs : List Char) :
    (utf8Bytes cs).takeWhile p = utf8Bytes (cs.takeWhile q) := by
  induction cs with
  | nil => rfl
  | cons c cs ih =>
      rw [utf8Bytes_cons, List.takeWhile_cons]
      cases hc : q c with
      | true =>
          rw [List.takeWhile_append_of_pos fun b hb => (h c b hb).trans hc, ih]
          rfl
      | false =>
          obtain ⟨b, bs, hbytes⟩ : ∃ b bs, String.utf8EncodeChar c = b :: bs :=
            List.exists_cons_of_ne_nil String.utf8EncodeChar_ne_nil
          have hb : p b = false := (h c b (hbytes ▸ List.mem_cons_self)).trans hc
          rw [hbytes, List.cons_append, List.takeWhile_cons, hb]
          rfl

/-- The first byte is judged as the first character is. -/
theorem any_head?_utf8Bytes (h : Judges p q) (cs : List Char) :
    (utf8Bytes cs).head?.any p = cs.head?.any q := by
  cases cs with
  | nil => rfl
  | cons c cs =>
      obtain ⟨b, bs, hbytes⟩ : ∃ b bs, String.utf8EncodeChar c = b :: bs :=
        List.exists_cons_of_ne_nil String.utf8EncodeChar_ne_nil
      rw [utf8Bytes_cons, hbytes]
      exact h c b (hbytes ▸ List.mem_cons_self)

/-- So is the last one. -/
theorem any_getLast?_utf8Bytes (h : Judges p q) (cs : List Char) :
    (utf8Bytes cs).getLast?.any p = cs.getLast?.any q := by
  cases hlast : cs.getLast? with
  | none =>
      rw [List.getLast?_eq_none_iff] at hlast
      rw [hlast]
      rfl
  | some c =>
      obtain ⟨front, rfl⟩ := List.getLast?_eq_some_iff.mp hlast
      have hbytes : utf8Bytes [c] = String.utf8EncodeChar c := by rw [utf8Bytes_cons]; simp
      have hne := String.utf8EncodeChar_ne_nil (c := c)
      obtain ⟨b, hb⟩ := Option.isSome_iff_exists.mp (List.getLast?_isSome.mpr hne)
      rw [utf8Bytes_append, hbytes, List.getLast?_append, hb]
      exact h c b (List.mem_of_getLast? hb)

end Judges

/-- Where a byte outside ASCII stands, no ASCII character begins. -/
theorem isPrefixOf_utf8Bytes_of_le {d : Char} {b : UInt8} (hd : d.toNat < 0x80) (hb : 0x80 ≤ b)
    (word : List Char) (bs : List UInt8) :
    (utf8Bytes (d :: word)).isPrefixOf (b :: bs) = false := by
  rw [utf8Bytes_cons, utf8EncodeChar_of_lt hd, List.singleton_append, List.isPrefixOf_cons_cons,
    BEq.comm, beq_toUInt8_of_le hb hd, Bool.false_and]

/-- A word of ASCII characters begins a text exactly if its bytes begin those of the text. -/
theorem isPrefixOf_utf8Bytes {word : List Char} (hword : allAscii word = true)
    (cs : List Char) : (utf8Bytes word).isPrefixOf (utf8Bytes cs) = word.isPrefixOf cs := by
  induction word generalizing cs with
  | nil => simp
  | cons d word ih =>
      obtain ⟨hd, hrest⟩ := allAscii_cons.mp hword
      cases cs with
      | nil => rw [utf8Bytes_cons, utf8EncodeChar_of_lt hd]; rfl
      | cons c cs =>
          rcases utf8EncodeChar_cases c with ⟨hc, hbytes⟩ | ⟨hc, hbytes⟩
          · rw [utf8Bytes_cons, utf8Bytes_cons, hbytes, utf8EncodeChar_of_lt hd,
              List.singleton_append, List.singleton_append, List.isPrefixOf_cons_cons,
              List.isPrefixOf_cons_cons, ih hrest, toUInt8_beq hd hc]
          · obtain ⟨b, bs, hcons⟩ : ∃ b bs, String.utf8EncodeChar c = b :: bs :=
              List.exists_cons_of_ne_nil String.utf8EncodeChar_ne_nil
            have hb : 0x80 ≤ b := hbytes b (hcons ▸ List.mem_cons_self)
            rw [utf8Bytes_cons c, hcons, List.cons_append, isPrefixOf_utf8Bytes_of_le hd hb,
              List.isPrefixOf_cons_cons, BEq.comm, beq_false_of_ne (ne_of_le hc hd), Bool.false_and]

/-- The bytes from an offset on. -/
structure Ahead (bytes : List UInt8) (offset : Nat) (bs : List UInt8) : Prop where
  drop_eq : bytes.drop offset = bs
  le : offset ≤ bytes.length

namespace Ahead

variable {bytes bs : List UInt8} {offset : Nat}

theorem start (bytes : List UInt8) : Ahead bytes 0 bytes := ⟨rfl, Nat.zero_le _⟩

theorem of_append (front back : List Char) :
    Ahead (utf8Bytes (front ++ back)) (utf8Size front) (utf8Bytes back) := by
  rw [utf8Bytes_append, ← length_utf8Bytes]
  exact ⟨List.drop_left, by rw [List.length_append]; exact Nat.le_add_right _ _⟩

theorem of_get {b : UInt8} (h : bytes[offset]? = some b) :
    Ahead bytes offset (b :: bytes.drop (offset + 1)) := by
  obtain ⟨hlt, hb⟩ := List.getElem?_eq_some_iff.mp h
  exact ⟨by rw [List.drop_eq_getElem_cons hlt, hb], Nat.le_of_lt hlt⟩

theorem length_eq (h : Ahead bytes offset bs) : offset + bs.length = bytes.length := by
  rw [← h.drop_eq, List.length_drop]
  exact Nat.add_sub_cancel' h.le

theorem getElem?_eq (h : Ahead bytes offset bs) (k : Nat) : bytes[offset + k]? = bs[k]? := by
  rw [← h.drop_eq, List.getElem?_drop]

theorem lt {b : UInt8} (h : Ahead bytes offset (b :: bs)) : offset < bytes.length := by
  rw [← h.length_eq, List.length_cons]
  omega

theorem get {b : UInt8} (h : Ahead bytes offset (b :: bs)) : bytes[offset]? = some b :=
  h.getElem?_eq 0

/-- The bytes behind some of them. -/
theorem behind {xs ys : List UInt8} (h : Ahead bytes offset (xs ++ ys)) :
    Ahead bytes (offset + xs.length) ys := by
  constructor
  · rw [← List.drop_drop, h.drop_eq, List.drop_left]
  · rw [← h.length_eq, List.length_append]
    omega

theorem step {b : UInt8} (h : Ahead bytes offset (b :: bs)) : Ahead bytes (offset + 1) bs :=
  @behind bytes offset [b] bs h

/-- **Inside of a character.**  A reader that passes a byte outside ASCII without a look passes
them all. -/
theorem pass {α : Type} {f : Nat → α} {xs ys : List UInt8} (h : Ahead bytes offset (xs ++ ys))
    (hxs : ∀ b ∈ xs, 0x80 ≤ b)
    (hpass : ∀ i b, bytes[i]? = some b → 0x80 ≤ b → f i = f (i + 1)) :
    f offset = f (offset + xs.length) := by
  induction xs generalizing offset with
  | nil => rfl
  | cons b xs ih =>
      obtain ⟨hb, hrest⟩ := List.forall_mem_cons.mp hxs
      rw [hpass offset b h.get hb, ih h.step hrest, List.length_cons, Nat.add_right_comm,
        Nat.add_assoc]

variable {c : Char} {cs : List Char}

/-- The first byte of a character. -/
theorem first (h : Ahead bytes offset (utf8Bytes (c :: cs))) :
    ∃ b ∈ String.utf8EncodeChar c, bytes[offset]? = some b := by
  obtain ⟨b, bs, hbytes⟩ : ∃ b bs, String.utf8EncodeChar c = b :: bs :=
    List.exists_cons_of_ne_nil String.utf8EncodeChar_ne_nil
  rw [utf8Bytes_cons, hbytes] at h
  exact ⟨b, hbytes ▸ List.mem_cons_self, h.get⟩

/-- The bytes behind a character. -/
theorem next (h : Ahead bytes offset (utf8Bytes (c :: cs))) :
    Ahead bytes (offset + c.utf8Size) (utf8Bytes cs) := by
  have hbehind := h.behind
  rwa [String.length_utf8EncodeChar] at hbehind

/-- A reader that passes bytes outside ASCII without a look gets from the first byte of a
character to its end. -/
theorem pass_behind {α : Type} {f : Nat → α} (h : Ahead bytes offset (utf8Bytes (c :: cs)))
    (hpass : ∀ i b, bytes[i]? = some b → 0x80 ≤ b → f i = f (i + 1)) :
    f (offset + 1) = f (offset + c.utf8Size) := by
  rw [utf8Bytes_cons] at h
  rw [← String.length_utf8EncodeChar]
  rcases utf8EncodeChar_cases c with ⟨-, hbytes⟩ | ⟨-, hbytes⟩
  · rw [hbytes]
    rfl
  · obtain ⟨b, bs, hcons⟩ : ∃ b bs, String.utf8EncodeChar c = b :: bs :=
      List.exists_cons_of_ne_nil String.utf8EncodeChar_ne_nil
    rw [hcons] at h hbytes ⊢
    have hskip := h.step.pass (fun b hb => hbytes b (List.mem_cons_of_mem _ hb)) hpass
    rw [hskip, List.length_cons, Nat.add_assoc, Nat.add_comm 1]

/-- An ASCII character is seen as its byte. -/
theorem cons_of_lt (hc : c.toNat < 0x80) (h : Ahead bytes offset (utf8Bytes (c :: cs))) :
    Ahead bytes offset (c.toUInt8 :: utf8Bytes cs) := by
  rwa [utf8Bytes_cons, utf8EncodeChar_of_lt hc] at h

theorem next_of_lt (hc : c.toNat < 0x80) (h : Ahead bytes offset (utf8Bytes (c :: cs))) :
    Ahead bytes (offset + 1) (utf8Bytes cs) :=
  (cons_of_lt hc h).step

/-- The byte at an offset tells whether an ASCII character stands there. -/
theorem peek (h : Ahead bytes offset (utf8Bytes cs)) {d : Char} (hd : d.toNat < 0x80) :
    (bytes[offset]? == some d.toUInt8) = (cs.head? == some d) := by
  have hjudged := (judges_eq hd).any_head?_utf8Bytes cs
  have hget := h.getElem?_eq 0
  rw [Nat.add_zero, ← List.head?_eq_getElem?] at hget
  rw [hget]
  cases hbytes : (utf8Bytes cs).head? <;> cases hchars : cs.head? <;>
    simp [hbytes, hchars] at hjudged ⊢ <;> exact hjudged

end Ahead

/-- Where an ASCII character stands there is its byte. -/
theorem getElem?_utf8Bytes_append {c : Char} (hc : c.toNat < 0x80) (front back : List Char) :
    (utf8Bytes (front ++ c :: back))[utf8Size front]? = some c.toUInt8 := by
  have hahead := Ahead.of_append front (c :: back)
  exact (hahead.cons_of_lt hc).get

end DeclLint
