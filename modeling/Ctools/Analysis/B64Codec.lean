import Ctools.Program.B64

/-!
# What is encoded is decoded

Three bytes become four indices below 64 and these the three bytes again (`b64DecodeBuf_group`), a
character of the table is taken by the loop of `b64_decode_ex` and is its own place in the table
(`b64Char_taken`, `b64Translate_b64Char`).  `b64Text` is the text group by group; `b64_encode` puts
out just that (`b64Encode_text`), and `b64_decode_ex` takes it back (`b64Decode_text`).
-/

set_option autoImplicit false

namespace Ctools.Analysis

open Ctools.Library Ctools.Program

/-! ## Characters -/

/-- A character of the table does not end the loop. -/
theorem b64Char_taken {v : ℕ} (hv : v < 64) :
    (b64Char v == 0x3d) = false ∧
      (!(isalnum (b64Char v) || b64Char v == 0x2b || b64Char v == 0x2f)) = false := by
  have hall : ∀ v < 64, (b64Char v == 0x3d) = false ∧
      (!(isalnum (b64Char v) || b64Char v == 0x2b || b64Char v == 0x2f)) = false := by
    decide +kernel
  exact hall v hv

/-- Its place in the table is the index it is for. -/
theorem b64Translate_b64Char {v : ℕ} (hv : v < 64) : b64Translate (b64Char v) = UInt8.ofNat v := by
  have hall : ∀ v < 64, b64Translate (b64Char v) = UInt8.ofNat v := by decide +kernel
  exact hall v hv

/-! ## Groups -/

/-- The maskings of `b64_encode`, of a byte. -/
theorem encode_masks {x : ℕ} (hx : x < 256) :
    (x &&& 0xfc) >>> 2 = x / 4 ∧ (x &&& 0x03) <<< 4 = x % 4 * 16 ∧ (x &&& 0xf0) >>> 4 = x / 16 ∧
      (x &&& 0x0f) <<< 2 = x % 16 * 4 ∧ (x &&& 0xc0) >>> 6 = x / 64 ∧ x &&& 0x3f = x % 64 := by
  have hall : ∀ x < 256,
      (x &&& 0xfc) >>> 2 = x / 4 ∧ (x &&& 0x03) <<< 4 = x % 4 * 16 ∧ (x &&& 0xf0) >>> 4 = x / 16 ∧
        (x &&& 0x0f) <<< 2 = x % 16 * 4 ∧ (x &&& 0xc0) >>> 6 = x / 64 ∧ x &&& 0x3f = x % 64 := by
    decide +kernel
  exact hall x hx

/-- The maskings of `b64_decode_ex`, of an index. -/
theorem decode_masks {v : ℕ} (hv : v < 64) :
    v <<< 2 = v * 4 ∧ (v &&& 0x30) >>> 4 = v / 16 ∧ (v &&& 0xf) <<< 4 = v % 16 * 16 ∧
      (v &&& 0x3c) >>> 2 = v / 4 ∧ (v &&& 0x3) <<< 6 = v % 4 * 64 := by
  have hall : ∀ v < 64, v <<< 2 = v * 4 ∧ (v &&& 0x30) >>> 4 = v / 16 ∧
      (v &&& 0xf) <<< 4 = v % 16 * 16 ∧ (v &&& 0x3c) >>> 2 = v / 4 ∧
      (v &&& 0x3) <<< 6 = v % 4 * 64 := by
    decide +kernel
  exact hall v hv

/-- The indices of three bytes. -/
theorem b64EncodeBuf_eq (a b c : UInt8) :
    b64EncodeBuf [a, b, c] = [a.toNat / 4, a.toNat % 4 * 16 + b.toNat / 16,
      b.toNat % 16 * 4 + c.toNat / 64, c.toNat % 64] := by
  obtain ⟨ha₁, ha₂, -, -, -, -⟩ := encode_masks a.toNat_lt
  obtain ⟨-, -, hb₁, hb₂, -, -⟩ := encode_masks b.toNat_lt
  obtain ⟨-, -, -, -, hc₁, hc₂⟩ := encode_masks c.toNat_lt
  rw [← ha₁, ← ha₂, ← hb₁, ← hb₂, ← hc₁, ← hc₂]
  rfl

/-- The four of them are below 64. -/
theorem indices_lt (a b c : UInt8) :
    a.toNat / 4 < 64 ∧ a.toNat % 4 * 16 + b.toNat / 16 < 64 ∧
      b.toNat % 16 * 4 + c.toNat / 64 < 64 ∧ c.toNat % 64 < 64 := by
  have ha := a.toNat_lt
  have hb := b.toNat_lt
  have hc := c.toNat_lt
  omega

/-- Three bytes are four indices into the table. -/
theorem exists_indices (a b c : UInt8) :
    ∃ v₀ v₁ v₂ v₃, b64EncodeBuf [a, b, c] = [v₀, v₁, v₂, v₃] ∧ v₀ < 64 ∧ v₁ < 64 ∧ v₂ < 64 ∧
      v₃ < 64 :=
  ⟨_, _, _, _, b64EncodeBuf_eq a b c, indices_lt a b c⟩

/-- Of one byte, two of them. -/
theorem exists_indices_one (a : UInt8) :
    ∃ v₀ v₁, b64EncodeBuf [a, 0, 0] = [v₀, v₁, 0, 0] ∧ v₀ < 64 ∧ v₁ < 64 := by
  obtain ⟨h₀, h₁, -, -⟩ := indices_lt a 0 0
  exact ⟨_, _, b64EncodeBuf_eq a 0 0, h₀, h₁⟩

/-- Of two bytes, three of them. -/
theorem exists_indices_two (a b : UInt8) :
    ∃ v₀ v₁ v₂, b64EncodeBuf [a, b, 0] = [v₀, v₁, v₂, 0] ∧ v₀ < 64 ∧ v₁ < 64 ∧ v₂ < 64 := by
  obtain ⟨h₀, h₁, h₂, -⟩ := indices_lt a b 0
  exact ⟨_, _, _, b64EncodeBuf_eq a b 0, h₀, h₁, h₂⟩

/-- **Four indices become three bytes.** -/
theorem b64DecodeBuf_eq {v₀ v₁ v₂ v₃ : ℕ} (h₀ : v₀ < 64) (h₁ : v₁ < 64) (h₂ : v₂ < 64)
    (h₃ : v₃ < 64) :
    b64DecodeBuf [UInt8.ofNat v₀, UInt8.ofNat v₁, UInt8.ofNat v₂, UInt8.ofNat v₃] =
      [UInt8.ofNat (v₀ * 4 + v₁ / 16), UInt8.ofNat (v₁ % 16 * 16 + v₂ / 4),
        UInt8.ofNat (v₂ % 4 * 64 + v₃)] := by
  obtain ⟨h₀₁, -, -, -, -⟩ := decode_masks h₀
  obtain ⟨-, h₁₁, h₁₂, -, -⟩ := decode_masks h₁
  obtain ⟨-, -, -, h₂₁, h₂₂⟩ := decode_masks h₂
  have hnat : ∀ {v : ℕ}, v < 64 → (UInt8.ofNat v).toNat = v := fun hv =>
    UInt8.toNat_ofNat_of_lt (hv.trans (by decide))
  simp only [b64DecodeBuf, tmpAt, List.getD_cons_zero, List.getD_cons_succ, hnat h₀, hnat h₁,
    hnat h₂, hnat h₃, h₀₁, h₁₁, h₁₂, h₂₁, h₂₂]

/-- **Three bytes, encoded and decoded.** -/
theorem b64DecodeBuf_group (a b c : UInt8) :
    b64DecodeBuf (((b64EncodeBuf [a, b, c]).map b64Char).map b64Translate) = [a, b, c] := by
  have ha := a.toNat_lt
  have hb := b.toNat_lt
  have hc := c.toNat_lt
  obtain ⟨h₀, h₁, h₂, h₃⟩ := indices_lt a b c
  rw [b64EncodeBuf_eq]
  simp only [List.map_cons, List.map_nil, b64Translate_b64Char h₀, b64Translate_b64Char h₁,
    b64Translate_b64Char h₂, b64Translate_b64Char h₃]
  rw [b64DecodeBuf_eq h₀ h₁ h₂ h₃]
  have hfirst : a.toNat / 4 * 4 + (a.toNat % 4 * 16 + b.toNat / 16) / 16 = a.toNat := by omega
  have hsecond : (a.toNat % 4 * 16 + b.toNat / 16) % 16 * 16 +
      (b.toNat % 16 * 4 + c.toNat / 64) / 4 = b.toNat := by omega
  have hthird : (b.toNat % 16 * 4 + c.toNat / 64) % 4 * 64 + c.toNat % 64 = c.toNat := by omega
  rw [hfirst, hsecond, hthird, UInt8.ofNat_toNat, UInt8.ofNat_toNat, UInt8.ofNat_toNat]

/-! ## Texts -/

/-- The text of some bytes, group by group. -/
def b64Text : List UInt8 → List UInt8
  | [] => []
  | [a] => ((b64EncodeBuf [a, 0, 0]).map b64Char).take 2 ++ [0x3d, 0x3d]
  | [a, b] => ((b64EncodeBuf [a, b, 0]).map b64Char).take 3 ++ [0x3d]
  | a :: b :: c :: rest => (b64EncodeBuf [a, b, c]).map b64Char ++ b64Text rest

/-- Four characters for every three bytes begun. -/
theorem length_b64Text (src : List UInt8) :
    (b64Text src).length = 4 * ((src.length + 2) / 3) := by
  induction src using b64Text.induct with
  | case1 => rfl
  | case2 a => simp [b64Text, b64EncodeBuf]
  | case3 a b => simp [b64Text, b64EncodeBuf]
  | case4 a b c rest ih =>
    rw [b64Text, List.length_append, ih]
    simp only [b64EncodeBuf, List.map_cons, List.map_nil, List.length_cons, List.length_nil]
    omega

section Allocated

variable (allocs : ℕ → Bool)

/-- Characters of the table are read to those of their group. -/
theorem b64DecodeLoop_chars {vs : List ℕ} (hvs : ∀ v ∈ vs, v < 64) (j : ℕ)
    (tmp dec rest : List UInt8) (calls : ℕ) (hj : j + vs.length < 2 ^ 31)
    (hlen : tmp.length + vs.length < 4) :
    b64DecodeLoop allocs (vs.map b64Char ++ rest) ⟨j, tmp, dec, calls⟩ =
      b64DecodeLoop allocs rest ⟨j + vs.length, tmp ++ vs.map b64Char, dec, calls⟩ := by
  induction vs generalizing j tmp with
  | nil => simp
  | cons v vs ih =>
    rw [List.length_cons] at hj hlen
    obtain ⟨hpad, htaken⟩ := b64Char_taken (hvs v List.mem_cons_self)
    have hshort : (tmp ++ [b64Char v]).length ≠ 4 := by
      rw [List.length_append, List.length_singleton]
      omega
    have hturn : b64DecodeTurn allocs ⟨j, tmp, dec, calls⟩ (b64Char v) =
        .ok ⟨j + 1, tmp ++ [b64Char v], dec, calls⟩ := by
      rw [b64DecodeTurn, if_pos (by show j + 1 < 2 ^ 31; omega)]
      exact if_neg hshort
    have hroom : (tmp ++ [b64Char v]).length + vs.length < 4 := by
      rw [List.length_append, List.length_singleton]
      omega
    have hrest := ih (fun v hv => hvs v (List.mem_cons_of_mem _ hv)) (j + 1)
      (tmp ++ [b64Char v]) (by omega) hroom
    rw [List.map_cons, List.cons_append, b64DecodeLoop, hpad, htaken, hturn]
    refine hrest.trans ?_
    rw [List.append_assoc, List.singleton_append, List.length_cons, Nat.add_assoc,
      Nat.add_comm 1 vs.length]

variable {allocs} (hallocs : ∀ k, allocs k = true)

include hallocs

/-- Where allocations succeed, the characters are appended. -/
theorem encPut_ok (s : B64Encoder) (chars : List UInt8) :
    encPut allocs s chars = .ok { s with enc := s.enc ++ chars, calls := s.calls + 1 } :=
  if_pos (hallocs _)

/-- Where allocations succeed, the bytes are appended. -/
theorem decPut_ok (s : B64Decoder) (bytes : List UInt8) :
    decPut allocs s bytes = .ok { s with dec := s.dec ++ bytes, calls := s.calls + 1 } :=
  if_pos (hallocs _)

/-- The fourth character completes a group. -/
theorem b64DecodeLoop_group (a b c : UInt8) (dec rest : List UInt8) {j : ℕ} (calls : ℕ)
    (hj : j + 4 < 2 ^ 31) :
    b64DecodeLoop allocs ((b64EncodeBuf [a, b, c]).map b64Char ++ rest) ⟨j, [], dec, calls⟩ =
      b64DecodeLoop allocs rest ⟨j + 4, [], dec ++ [a, b, c], calls + 1⟩ := by
  have hgroup := b64DecodeBuf_group a b c
  obtain ⟨v₀, v₁, v₂, v₃, hbuf, h₀, h₁, h₂, h₃⟩ := exists_indices a b c
  rw [hbuf] at hgroup ⊢
  have hvs : ∀ v ∈ [v₀, v₁, v₂], v < 64 := by simp [h₀, h₁, h₂]
  have hthree := b64DecodeLoop_chars allocs hvs j [] dec (b64Char v₃ :: rest) calls
    (show j + 3 < 2 ^ 31 by omega) (show 0 + 3 < 4 by omega)
  have hturn : b64DecodeTurn allocs ⟨j + 3, [v₀, v₁, v₂].map b64Char, dec, calls⟩ (b64Char v₃) =
      .ok ⟨j + 4, [], dec ++ [a, b, c], calls + 1⟩ := by
    rw [b64DecodeTurn, if_pos (show j + 3 + 1 < 2 ^ 31 by omega)]
    show (decPut allocs ⟨j + 4, _, dec, calls⟩
      (b64DecodeBuf (([v₀, v₁, v₂, v₃].map b64Char).map b64Translate)) >>= _) = _
    rw [hgroup, decPut_ok hallocs]
    rfl
  obtain ⟨hpad, htaken⟩ := b64Char_taken h₃
  refine hthree.trans ?_
  show b64DecodeLoop allocs (b64Char v₃ :: rest)
    ⟨j + 3, [v₀, v₁, v₂].map b64Char, dec, calls⟩ = _
  rw [b64DecodeLoop, hpad, htaken, hturn]
  rfl

/-- Characters put one by one are put. -/
theorem encPut_all (chars : List UInt8) (s : B64Encoder) :
    ∃ s', chars.foldlM (fun s char => encPut allocs s [char]) s = .ok s' ∧
      s'.enc = s.enc ++ chars := by
  induction chars generalizing s with
  | nil => exact ⟨s, rfl, (List.append_nil _).symm⟩
  | cons char chars ih =>
    obtain ⟨s', hrest, henc⟩ := ih { s with enc := s.enc ++ [char], calls := s.calls + 1 }
    refine ⟨s', ?_, by rw [henc, List.append_assoc]; rfl⟩
    rw [List.foldlM_cons, encPut_ok hallocs]
    exact hrest

/-- `b64_encode` puts out the text. -/
theorem b64Encode_text (src enc : List UInt8) (calls : ℕ) :
    ∃ s s', src.foldlM (b64EncodeTurn allocs) ⟨[], enc, calls⟩ = .ok s ∧
      b64EncodeRest allocs s = .ok s' ∧ s'.enc = enc ++ b64Text src := by
  induction src using b64Text.induct generalizing enc calls with
  | case1 => exact ⟨_, _, rfl, rfl, (List.append_nil _).symm⟩
  | case2 a =>
    obtain ⟨s', hput, henc⟩ := encPut_all hallocs (b64Text [a]) ⟨[a], enc, calls⟩
    exact ⟨⟨[a], enc, calls⟩, s', rfl, hput, henc⟩
  | case3 a b =>
    obtain ⟨s', hput, henc⟩ := encPut_all hallocs (b64Text [a, b]) ⟨[a, b], enc, calls⟩
    exact ⟨⟨[a, b], enc, calls⟩, s', rfl, hput, henc⟩
  | case4 a b c rest ih =>
    have hgroup : [a, b, c].foldlM (b64EncodeTurn allocs) ⟨[], enc, calls⟩ =
        .ok ⟨[], enc ++ (b64EncodeBuf [a, b, c]).map b64Char, calls + 1⟩ := by
      show b64EncodeTurn allocs ⟨[a, b], enc, calls⟩ c >>= pure = _
      simp only [b64EncodeTurn, List.cons_append, List.nil_append, List.length_cons,
        List.length_nil, if_true, encPut_ok hallocs]
      rfl
    obtain ⟨s, s', hloop, hrest, henc⟩ :=
      ih (enc ++ (b64EncodeBuf [a, b, c]).map b64Char) (calls + 1)
    refine ⟨s, s', ?_, hrest, by rw [henc, b64Text, List.append_assoc]⟩
    rw [show a :: b :: c :: rest = [a, b, c] ++ rest from rfl, List.foldlM_append, hgroup]
    exact hloop

/-- `b64_decode_ex` takes the text back. -/
theorem b64Decode_text (src : List UInt8) (j : ℕ) (dec : List UInt8) (calls : ℕ)
    (hj : j + (b64Text src).length < 2 ^ 31) :
    ∃ s s', b64DecodeLoop allocs (b64Text src) ⟨j, [], dec, calls⟩ = .ok s ∧
      b64DecodeRest allocs s = .ok s' ∧ s'.dec = dec ++ src := by
  -- The bytes that stand for what is missing are those of the first character.
  have hfill : b64Translate 0 = b64Translate (b64Char 0) := by decide +kernel
  rw [length_b64Text] at hj
  induction src using b64Text.induct generalizing j dec calls with
  | case1 => exact ⟨_, _, rfl, rfl, (List.append_nil _).symm⟩
  | case2 a =>
    have hgroup := b64DecodeBuf_group a 0 0
    obtain ⟨v₀, v₁, hbuf, h₀, h₁⟩ := exists_indices_one a
    have hvs : ∀ v ∈ [v₀, v₁], v < 64 := by simp [h₀, h₁]
    have hchars := b64DecodeLoop_chars allocs hvs j [] dec [0x3d, 0x3d] calls
      (show j + 2 < 2 ^ 31 by simp at hj; omega) (show 0 + 2 < 4 by omega)
    refine ⟨⟨j + 2, [v₀, v₁].map b64Char, dec, calls⟩, _, ?_, decPut_ok hallocs _ _, ?_⟩
    · rw [b64Text, hbuf]
      exact hchars
    · rw [hbuf] at hgroup
      show dec ++ (b64DecodeBuf [_, _, b64Translate 0, b64Translate 0]).take 1 = _
      rw [hfill]
      exact congrArg (fun buf : List UInt8 => dec ++ buf.take 1) hgroup
  | case3 a b =>
    have hgroup := b64DecodeBuf_group a b 0
    obtain ⟨v₀, v₁, v₂, hbuf, h₀, h₁, h₂⟩ := exists_indices_two a b
    have hvs : ∀ v ∈ [v₀, v₁, v₂], v < 64 := by simp [h₀, h₁, h₂]
    have hchars := b64DecodeLoop_chars allocs hvs j [] dec [0x3d] calls
      (show j + 3 < 2 ^ 31 by simp at hj; omega) (show 0 + 3 < 4 by omega)
    refine ⟨⟨j + 3, [v₀, v₁, v₂].map b64Char, dec, calls⟩, _, ?_, decPut_ok hallocs _ _, ?_⟩
    · rw [b64Text, hbuf]
      exact hchars
    · rw [hbuf] at hgroup
      show dec ++ (b64DecodeBuf [_, _, _, b64Translate 0]).take 2 = _
      rw [hfill]
      exact congrArg (fun buf : List UInt8 => dec ++ buf.take 2) hgroup
  | case4 a b c rest ih =>
    rw [List.length_cons, List.length_cons, List.length_cons] at hj
    have hgroup := b64DecodeLoop_group hallocs a b c dec (b64Text rest) calls
      (show j + 4 < 2 ^ 31 by omega)
    obtain ⟨s, s', hloop, hrest, hdec⟩ := ih (j + 4) (dec ++ [a, b, c]) (calls + 1) (by omega)
    refine ⟨s, s', ?_, hrest, by rw [hdec, List.append_assoc]; rfl⟩
    rw [b64Text, hgroup]
    exact hloop

end Allocated

end Ctools.Analysis

open Ctools.Program in
/-- **What is encoded is decoded**: where no allocation fails, `b64_encode` gives a string of four
characters for every three bytes begun, and `b64_decode_ex` of its characters gives the bytes and
their number; as long as an `int` can count the characters. -/
theorem Ctools.Analysis.b64DecodeEx_b64Encode {allocs allocs' : ℕ → Bool}
    (hallocs : ∀ k, allocs k = true) (hallocs' : ∀ k, allocs' k = true) {src : List UInt8}
    (hsrc : 4 * ((src.length + 2) / 3) < 2 ^ 31) :
    ∃ text, b64Encode allocs src = .ok (text ++ [0]) ∧
      text.length = 4 * ((src.length + 2) / 3) ∧
      b64DecodeEx allocs' text = .ok (src ++ [0], src.length) := by
  have hlen := Ctools.Analysis.length_b64Text src
  obtain ⟨s, s', hloop, hrest, henc⟩ := Ctools.Analysis.b64Encode_text hallocs src [] 1
  obtain ⟨t, t', hloop', hrest', hdec⟩ :=
    Ctools.Analysis.b64Decode_text hallocs' src 0 [] 1 (by omega)
  rw [List.nil_append] at henc hdec
  refine ⟨Ctools.Analysis.b64Text src, ?_, hlen, ?_⟩
  · have hend := Ctools.Analysis.encPut_ok hallocs s' [0]
    rw [henc] at hend
    simp only [b64Encode, hallocs, hloop, Bool.not_true, Bool.false_eq_true, if_false]
    show (b64EncodeRest allocs s >>= _) = _
    rw [hrest]
    show (encPut allocs s' [0] >>= _) = _
    rw [hend]
    rfl
  · have hend := Ctools.Analysis.decPut_ok hallocs' t' [0]
    rw [hdec] at hend
    simp only [b64DecodeEx, hallocs', hloop', Bool.not_true, Bool.false_eq_true, if_false]
    show (b64DecodeRest allocs' t >>= _) = _
    rw [hrest']
    show (decPut allocs' t' [0] >>= _) = _
    rw [hend, ← hdec]
    rfl

open Ctools.Program in
/-- Two bytes, which one padding character completes. -/
theorem Ctools.Analysis.b64DecodeEx_b64Encode_at :
    ∃ text, b64Encode (fun _ => true) [77, 97] = .ok (text ++ [0]) ∧
      text.length = 4 * ((([77, 97] : List UInt8).length + 2) / 3) ∧
      b64DecodeEx (fun _ => true) text = .ok ([77, 97] ++ [0], 2) :=
  Ctools.Analysis.b64DecodeEx_b64Encode (fun _ => rfl) (fun _ => rfl)
    (show 4 * ((([77, 97] : List UInt8).length + 2) / 3) < 2 ^ 31 by decide)
