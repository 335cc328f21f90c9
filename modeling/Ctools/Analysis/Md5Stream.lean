import Ctools.Analysis.Md5Rounds

/-!
# MD5 sums by pieces

A context holds a message when its registers have taken up all of it but the bytes in the
buffer, and its counter and the buffer together count it.  `md5_process_bytes` keeps this for
pieces of any length, whichever bytes it copies to the buffer and whichever it takes up from
where they are; `md5_finish_ctx` pads what is in the buffer, and comes to the sum of the message.
-/

set_option autoImplicit false

namespace Ctools.Analysis

open Ctools.Library Ctools.Program Ctools.Interface

/-! ## Whole blocks -/

/-- A block has sixteen words. -/
theorem wordIndex_lt (step : ℕ) : wordIndex step < 16 := by
  unfold wordIndex
  split <;> exact Nat.mod_lt _ (by decide)

/-- The steps read sixteen words. -/
theorem md5Steps_congr {word word' : ℕ → BitVec 32} (h : ∀ i < 16, word i = word' i) (r : Md5Regs)
    (n : ℕ) : md5Steps word r n = md5Steps word' r n := by
  induction n with
  | zero => rfl
  | succ n ih => rw [md5Steps, md5Steps, ih, md5Step, md5Step, h _ (wordIndex_lt n)]

/-- The steps of a block that stands in a longer list. -/
theorem md5Steps_take (cells : List UInt8) (r : Md5Regs) (n : ℕ) :
    md5Steps (blockWord (cells.take 64)) r n = md5Steps (blockWord cells) r n := by
  refine md5Steps_congr (fun i hi => ?_) r n
  have hread : ∀ k < 4, ((cells.take 64).getD (4 * i + k) 0).toNat =
      (cells.getD (4 * i + k) 0).toNat := by
    intro k hk
    rw [List.getD_eq_getElem?_getD, List.getElem?_take_of_lt (by omega),
      List.getD_eq_getElem?_getD]
  rw [blockWord, blockWord, (lsbFirst 4).read_congr hread]

/-- **The loop over blocks** comes to the blocks. -/
theorem blockLoop_eq (speed : Fin 4) (host : HostOrder) {memory : List UInt8} {p turns : ℕ}
    (hp : p + 64 * turns ≤ memory.length) (r : Md5Regs) :
    blockLoop speed host memory turns p r = some (blocks compress 64 turns r (memory.drop p)) := by
  induction turns generalizing p r with
  | zero => rfl
  | succ turns ih =>
    have hrounds := blockRounds_eq speed host (show p + 64 ≤ memory.length by omega) r
    have hsteps := md5Steps_take (memory.drop p) r 64
    rw [blockLoop, hrounds, Option.bind_eq_bind, Option.bind_some, ih (by omega), blocks,
      List.drop_drop, compress, hsteps]

/-- Whole blocks are counted and compressed. -/
theorem md5ProcessBlock_eq (speed : Fin 4) (host : HostOrder) {memory : List UInt8} {p k : ℕ}
    (hp : p + 64 * k ≤ memory.length) (ctx : Md5Ctx) :
    md5ProcessBlock speed host memory p (64 * k) ctx =
      some { countBytes ctx (64 * k) with
        regs := blocks compress 64 k ctx.regs (memory.drop p) } := by
  have hturns : (64 * k / 4 + 15) / 16 = k := by omega
  have hregs : (countBytes ctx (64 * k)).regs = ctx.regs := rfl
  rw [md5ProcessBlock]
  simp only [hturns, hregs, blockLoop_eq speed host hp, Option.bind_eq_bind, Option.bind_some,
    Option.pure_def]

/-! ## The counter -/

/-- The number the two words of the counter hold. -/
def md5Total (ctx : Md5Ctx) : ℕ := ctx.total₀.toNat + 2 ^ 32 * ctx.total₁.toNat

/-- **When the counter is right**: one carry is all it notices. -/
theorem total_countBytes_iff (ctx : Md5Ctx) {len : ℕ} (hlen : len < 2 ^ 64) :
    md5Total (countBytes ctx len) = (md5Total ctx + len) % 2 ^ 64 ↔
        ctx.total₀.toNat + len < 2 ^ 33 := by
  have h₀ := ctx.total₀.isLt
  have h₁ := ctx.total₁.isLt
  have hsum : (ctx.total₀ + BitVec.ofNat 32 len).toNat = (ctx.total₀.toNat + len) % 2 ^ 32 := by
    rw [BitVec.toNat_add, BitVec.toNat_ofNat, Nat.add_mod_mod]
  have hone : (ctx.total₁ + 1).toNat = (ctx.total₁.toNat + 1) % 2 ^ 32 := BitVec.toNat_add _ _
  simp only [md5Total, countBytes, hsum]
  split
  · rw [hone]
    omega
  · omega

/-- The two counters count to `2 ^ 64`. -/
theorem total_countBytes {ctx : Md5Ctx} {len : ℕ} (hlen : len < 2 ^ 32) :
    md5Total (countBytes ctx len) = (md5Total ctx + len) % 2 ^ 64 := by
  have h₀ := ctx.total₀.isLt
  exact (total_countBytes_iff ctx (by omega)).mpr (by omega)

/-! ## Pieces -/

/-- A context holds a message, with at most `limit` bytes of it in the buffer. -/
structure Md5Holds (limit : ℕ) (ctx : Md5Ctx) (message : List UInt8) : Prop where
  room : ctx.buffer.length = 128
  few : ctx.buflen.toNat ≤ limit
  absorbed : Absorbed compress 64 md5Start message ctx.regs (ctx.buffer.take ctx.buflen.toNat)
  counted : (md5Total ctx + ctx.buflen.toNat) % 2 ^ 64 = message.length % 2 ^ 64

/-- What `md5_init_ctx` leaves has taken nothing. -/
theorem md5Holds_init {ctx : Md5Ctx} (hroom : ctx.buffer.length = 128) :
    Md5Holds 64 (md5InitCtx ctx) [] :=
  ⟨hroom, Nat.zero_le 64, Absorbed.start compress 64 md5Start, rfl⟩

/-- The mask leaves whole blocks. -/
theorem and_not63 {n : ℕ} (hn : n < 2 ^ 64) : n &&& not63 = 64 * (n / 64) := by
  apply Nat.eq_of_testBit_eq
  intro i
  have hmask : not63 = (2 ^ 58 - 1) * 2 ^ 6 := by decide
  have hwhole : 64 * (n / 64) = n / 2 ^ 6 * 2 ^ 6 := Nat.mul_comm _ _
  rw [Nat.testBit_and, hmask, hwhole, Nat.testBit_mul_two_pow, Nat.testBit_mul_two_pow,
    Nat.testBit_two_pow_sub_one, Nat.testBit_div_two_pow]
  by_cases hi : 6 ≤ i
  · rw [show i - 6 + 6 = i by omega]
    by_cases hhigh : i - 6 < 58
    · simp [hi, hhigh]
    · have hbit : n.testBit i = false :=
        Nat.testBit_lt_two_pow (hn.trans_le (Nat.pow_le_pow_right (by decide) (by omega)))
      simp [hbit]
  · simp [hi]

/-- The mask leaves what is no whole block. -/
theorem and_63 (n : ℕ) : n &&& 63 = n % 64 := Nat.and_two_pow_sub_one_eq_mod n 6

/-- What `md5_process_block` leaves, if the blocks it takes up are at the front of what is
pending: the rest is pending then. -/
theorem process_taken (speed : Fin 4) (host : HostOrder) {ctx : Md5Ctx}
    {message memory rest : List UInt8} {p k : ℕ}
    (habsorbed : Absorbed compress 64 md5Start message ctx.regs
      ((memory.drop p).take (64 * k) ++ rest))
    (hcounted : (md5Total ctx + 64 * k + rest.length) % 2 ^ 64 = message.length % 2 ^ 64)
    (hp : p + 64 * k ≤ memory.length) (hk : 64 * k < 2 ^ 32) :
    ∃ ctx', md5ProcessBlock speed host memory p (64 * k) ctx = some ctx' ∧
      ctx'.buffer = ctx.buffer ∧ ctx'.buflen = ctx.buflen ∧
      Absorbed compress 64 md5Start message ctx'.regs rest ∧
      (md5Total ctx' + rest.length) % 2 ^ 64 = message.length % 2 ^ 64 := by
  refine ⟨_, md5ProcessBlock_eq speed host hp ctx, rfl, rfl, ?_, ?_⟩
  · have hroom : 64 * k ≤ (memory.drop p).length := by
      rw [List.length_drop]
      omega
    have htake := habsorbed.take (List.length_take_of_le hroom)
    rwa [blocks_take ctx.regs hroom] at htake
  · have htotal : md5Total (countBytes ctx (64 * k)) = (md5Total ctx + 64 * k) % 2 ^ 64 :=
      total_countBytes hk
    show (md5Total (countBytes ctx (64 * k)) + rest.length) % 2 ^ 64 = _
    rw [htotal, Nat.mod_add_mod, hcounted]

/-- Bytes copied behind those in the buffer. -/
theorem holds_copy {limit : ℕ} {ctx : Md5Ctx} {message : List UInt8}
    (h : Md5Holds limit ctx message)
    {data : List UInt8} {p add : ℕ} (hadd : p + add ≤ data.length)
    (hfits : ctx.buflen.toNat + add ≤ 128) :
    ∃ mem, memcpy ctx.buffer ctx.buflen.toNat data p add = some mem ∧
      Md5Holds 128 { ctx with buffer := mem, buflen := ctx.buflen + BitVec.ofNat 32 add }
        (message ++ (data.drop p).take add) := by
  have hroom := h.room
  have hheld : (ctx.buffer.take ctx.buflen.toNat).length = ctx.buflen.toNat := by
    rw [List.length_take, hroom]
    omega
  have hcells : ((data.drop p).take add).length = add := by
    rw [List.length_take, List.length_drop]
    omega
  have hbehind := memcpy_behind (ctx.buffer.take ctx.buflen.toNat)
    (ctx.buffer.drop ctx.buflen.toNat) data p add (by rw [List.length_drop]; omega) hadd
  rw [List.take_append_drop, hheld] at hbehind
  have hbuflen : (ctx.buflen + BitVec.ofNat 32 add).toNat = ctx.buflen.toNat + add := by
    rw [BitVec.toNat_add, BitVec.toNat_ofNat, Nat.add_mod_mod]
    omega
  refine ⟨_, hbehind, ?_, ?_, ?_, ?_⟩
  · simp only [List.length_append, hheld, hcells, List.length_drop]
    omega
  · rw [hbuflen]
    exact hfits
  · have hfront : (ctx.buffer.take ctx.buflen.toNat ++ ((data.drop p).take add ++
        (ctx.buffer.drop ctx.buflen.toNat).drop add)).take (ctx.buflen.toNat + add) =
        ctx.buffer.take ctx.buflen.toNat ++ (data.drop p).take add := by
      rw [← List.append_assoc]
      apply List.take_left'
      rw [List.length_append, hheld, hcells]
    rw [hbuflen, hfront]
    exact h.absorbed.push ((data.drop p).take add)
  · rw [hbuflen, List.length_append, hcells, ← Nat.add_assoc, Nat.add_mod,
      Nat.add_mod message.length, ← h.counted]
    rfl

/-- **The buffer is emptied** but for the bytes behind its whole blocks. -/
theorem flushBuffer_eq {ctx : Md5Ctx} {message : List UInt8} (h : Md5Holds 128 ctx message)
    (speed : Fin 4) (host : HostOrder) :
    ∃ ctx', flushBuffer speed host ctx.buflen.toNat ctx = some ctx' ∧ Md5Holds 64 ctx' message ∧
      ctx'.buflen.toNat = ctx.buflen.toNat % 64 := by
  obtain ⟨hroom, hfew, habsorbed, hcounted⟩ := h
  generalize ctx.buflen.toNat = n at hfew habsorbed hcounted ⊢
  have hsplit : ctx.buffer.take n = (ctx.buffer.drop 0).take (64 * (n / 64)) ++
      (ctx.buffer.drop (64 * (n / 64))).take (n % 64) := by
    rw [List.drop_zero, ← List.take_add, Nat.div_add_mod]
  have hrest : ((ctx.buffer.drop (64 * (n / 64))).take (n % 64)).length = n % 64 := by
    rw [List.length_take, List.length_drop]
    omega
  rw [hsplit] at habsorbed
  obtain ⟨ctx', hblock, hbuffer, -, htaken, hcount⟩ := process_taken speed host habsorbed
    (by rw [hrest, Nat.add_assoc, Nat.div_add_mod, hcounted]) (by omega) (by omega)
  have hmove := memcpy_to_start ctx.buffer ctx.buffer (64 * (n / 64)) (n % 64) (by omega) (by omega)
  have hbuflen : (BitVec.ofNat 32 (n % 64)).toNat = n % 64 := by
    rw [BitVec.toNat_ofNat]
    omega
  have hflush : flushBuffer speed host n ctx =
      some { ctx' with
        buffer := (ctx.buffer.drop (64 * (n / 64))).take (n % 64) ++ ctx.buffer.drop (n % 64)
        buflen := BitVec.ofNat 32 (n % 64) } := by
    simp only [flushBuffer, and_not63 (show n < 2 ^ 64 by omega), and_63, hblock,
      Option.bind_eq_bind, Option.bind_some, hbuffer, hmove, Option.pure_def]
  refine ⟨_, hflush, ⟨?_, ?_, ?_, ?_⟩, hbuflen⟩
  · simp only [List.length_append, hrest, List.length_drop]
    omega
  · rw [hbuflen]
    omega
  · rw [hbuflen, List.take_left' hrest]
    exact htaken
  · rw [hbuflen, ← hcount, hrest]
    rfl

/-- **The buffer is filled** with the front of a piece, and emptied by blocks when it holds more
than one; unless it is empty then, that was the whole piece. -/
theorem fillBuffer_eq {ctx : Md5Ctx} {message : List UInt8} (h : Md5Holds 64 ctx message)
    (speed : Fin 4) (host : HostOrder) {data : List UInt8} {len : ℕ} (hlen : len ≤ data.length) :
    ∃ add ctx', fillBuffer speed host data len ctx = some (add, ctx') ∧ add ≤ len ∧
      Md5Holds 64 ctx' (message ++ data.take add) ∧ (add = len ∨ ctx'.buflen = 0) := by
  by_cases hzero : ctx.buflen = 0
  · refine ⟨0, ctx, if_neg (not_not.mpr hzero), Nat.zero_le len, ?_, .inr hzero⟩
    rwa [List.take_zero, List.append_nil]
  have hfew := h.few
  obtain ⟨add, hadd⟩ : ∃ add, add = if 128 - ctx.buflen.toNat > len then len
    else 128 - ctx.buflen.toNat := ⟨_, rfl⟩
  have hbounds : add ≤ len ∧ ctx.buflen.toNat + add ≤ 128 ∧
      (add = len ∨ ctx.buflen.toNat + add = 128) := by
    rw [hadd]
    split <;> omega
  obtain ⟨mem, hcopy, hcopied⟩ :=
    holds_copy h (show 0 + add ≤ data.length by omega) hbounds.2.1
  rw [List.drop_zero] at hcopied
  have hbuflen : (ctx.buflen + BitVec.ofNat 32 add).toNat = ctx.buflen.toNat + add := by
    rw [BitVec.toNat_add, BitVec.toNat_ofNat, Nat.add_mod_mod]
    omega
  by_cases hmany : ctx.buflen.toNat + add > 64
  · obtain ⟨ctx', hflush, hholds, hlast⟩ := flushBuffer_eq hcopied speed host
    rw [hbuflen] at hflush hlast
    refine ⟨add, ctx', ?_, hbounds.1, hholds, ?_⟩
    · simp only [fillBuffer, if_pos hzero, ← hadd, hcopy, Option.bind_eq_bind, Option.bind_some,
        if_pos hmany, hflush, Option.pure_def]
    · refine hbounds.2.2.imp_right fun hfull => BitVec.eq_of_toNat_eq ?_
      rw [hlast, hfull]
      rfl
  · refine ⟨add, { ctx with buffer := mem, buflen := ctx.buflen + BitVec.ofNat 32 add }, ?_,
      hbounds.1, { hcopied with few := ?_ }, .inl (by omega)⟩
    · simp only [fillBuffer, if_pos hzero, ← hadd, hcopy, Option.bind_eq_bind, Option.bind_some,
        if_neg hmany, Option.pure_def]
    · rw [hbuflen]
      omega

/-- With an empty buffer, blocks are taken up from where they are. -/
theorem md5ProcessBlock_holds {ctx : Md5Ctx} {message : List UInt8} (h : Md5Holds 64 ctx message)
    (hempty : ctx.buflen = 0) (speed : Fin 4) (host : HostOrder) {data : List UInt8} {p k : ℕ}
    (hp : p + 64 * k ≤ data.length) (hk : 64 * k < 2 ^ 32) :
    ∃ ctx', md5ProcessBlock speed host data p (64 * k) ctx = some ctx' ∧ ctx'.buflen = 0 ∧
      Md5Holds 64 ctx' (message ++ (data.drop p).take (64 * k)) := by
  obtain ⟨hroom, -, habsorbed, hcounted⟩ := h
  have hcells : ((data.drop p).take (64 * k)).length = 64 * k := by
    rw [List.length_take, List.length_drop]
    omega
  rw [hempty] at habsorbed hcounted
  have hfront := habsorbed.push ((data.drop p).take (64 * k))
  have hcount : (md5Total ctx + 64 * k + ([] : List UInt8).length) % 2 ^ 64 =
      (message ++ (data.drop p).take (64 * k)).length % 2 ^ 64 := by
    rw [List.length_append, hcells, Nat.add_mod message.length, ← hcounted, ← Nat.add_mod]
    rfl
  have hpending : ctx.buffer.take (BitVec.toNat (0 : BitVec 32)) ++ (data.drop p).take (64 * k) =
      (data.drop p).take (64 * k) ++ [] := (List.append_nil _).symm
  rw [hpending] at hfront
  obtain ⟨ctx', hblock, hbuffer, hbuflen, htaken, hcount'⟩ :=
    process_taken speed host hfront hcount hp hk
  have hzero : ctx'.buflen = 0 := hbuflen.trans hempty
  refine ⟨ctx', hblock, hzero, ⟨?_, ?_, ?_, ?_⟩⟩
  · rw [hbuffer]
    exact hroom
  · rw [hzero]
    exact Nat.zero_le 64
  · rw [hzero]
    exact htaken
  · rw [hzero]
    exact hcount'

/-- With an empty buffer, the whole blocks of a piece are taken up. -/
theorem processWhole_eq {ctx : Md5Ctx} {message : List UInt8} (h : Md5Holds 64 ctx message)
    (hempty : ctx.buflen = 0) (speed : Fin 4) (host : HostOrder) {data : List UInt8} {p len : ℕ}
    (hp : p + len ≤ data.length) (hlen : len < 2 ^ 32) :
    ∃ n left ctx', processWhole speed host data p len ctx = some (p + n, left, ctx') ∧
      n + left = len ∧ left ≤ 64 ∧ ctx'.buflen = 0 ∧
      Md5Holds 64 ctx' (message ++ (data.drop p).take n) := by
  by_cases hmany : len > 64
  · obtain ⟨ctx', hblock, hzero, hholds⟩ := md5ProcessBlock_holds h hempty speed host
      (show p + 64 * (len / 64) ≤ data.length by omega) (by omega)
    have hwhole : processWhole speed host data p len ctx =
        some (p + 64 * (len / 64), len % 64, ctx') := by
      simp only [processWhole, if_pos hmany, and_not63 (show len < 2 ^ 64 by omega), and_63, hblock,
        Option.bind_eq_bind, Option.bind_some, Option.pure_def]
    exact ⟨64 * (len / 64), len % 64, ctx', hwhole, by omega, by omega, hzero, hholds⟩
  · refine ⟨0, len, ctx, if_neg hmany, by omega, by omega, hempty, ?_⟩
    rwa [List.take_zero, List.append_nil]

/-- With an empty buffer, a short rest of a piece is kept in it. -/
theorem keepRest_eq {ctx : Md5Ctx} {message : List UInt8} (h : Md5Holds 64 ctx message)
    (hempty : ctx.buflen = 0) {data : List UInt8} {p len : ℕ} (hp : p + len ≤ data.length)
    (hlen : len ≤ 64) :
    ∃ ctx', keepRest data p len ctx = some ctx' ∧
      Md5Holds 64 ctx' (message ++ (data.drop p).take len) := by
  by_cases hmore : len > 0
  · have hzero : ctx.buflen.toNat = 0 := congrArg BitVec.toNat hempty
    obtain ⟨mem, hcopy, hcopied⟩ := holds_copy h hp (by omega)
    rw [hzero] at hcopy
    rw [hempty, show (0 : BitVec 32) + BitVec.ofNat 32 len = BitVec.ofNat 32 len from
      BitVec.zero_add _] at hcopied
    refine ⟨{ ctx with buffer := mem, buflen := BitVec.ofNat 32 len }, ?_,
      { hcopied with few := ?_ }⟩
    · simp only [keepRest, if_pos hmore, hcopy, Option.bind_eq_bind, Option.bind_some,
        Option.pure_def]
    · rw [BitVec.toNat_ofNat]
      omega
  · obtain rfl : len = 0 := by omega
    refine ⟨ctx, if_neg hmore, ?_⟩
    rwa [List.take_zero, List.append_nil]

/-- **A piece is taken up**, whatever the buffer holds. -/
theorem md5ProcessBytes_holds {ctx : Md5Ctx} {message : List UInt8} (h : Md5Holds 64 ctx message)
    (speed : Fin 4) (host : HostOrder) {data : List UInt8} {len : ℕ} (hlen : len ≤ data.length)
    (hsmall : len < 2 ^ 32) :
    ∃ ctx', md5ProcessBytes speed host data len ctx = some ctx' ∧
      Md5Holds 64 ctx' (message ++ data.take len) := by
  obtain ⟨add, ctx₁, hfill, hadd, h₁, hdone⟩ := fillBuffer_eq h speed host hlen
  rcases hdone with rfl | hempty
  · refine ⟨ctx₁, ?_, h₁⟩
    simp only [md5ProcessBytes, hfill, Nat.sub_self, processWhole, keepRest, Option.bind_eq_bind,
      Option.bind_some, Option.pure_def]
    rfl
  · obtain ⟨n, left, ctx₂, hwhole, hsum, hleft, hempty₂, h₂⟩ :=
      processWhole_eq h₁ hempty speed host (show add + (len - add) ≤ data.length by omega)
        (by omega)
    obtain ⟨ctx₃, hrest, h₃⟩ := keepRest_eq h₂ hempty₂
      (show add + n + left ≤ data.length by omega) hleft
    refine ⟨ctx₃, ?_, ?_⟩
    · simp only [md5ProcessBytes, hfill, hwhole, hrest, Option.bind_eq_bind, Option.bind_some]
    · have hpieces : data.take add ++ (data.drop add).take n ++ (data.drop (add + n)).take left =
          data.take len := by
        rw [← List.take_add, ← List.take_add]
        congr 1
        omega
      rwa [List.append_assoc message, List.append_assoc message, hpieces] at h₃

/-! ## The end of a message -/

/-- Cells stored behind others. -/
theorem writeCells_behind (done rest cells : List UInt8) (h : cells.length ≤ rest.length) :
    writeCells (done ++ rest) done.length cells =
        some (done ++ cells ++ rest.drop cells.length) := by
  simp [writeCells, h]

/-- A word has four bytes. -/
@[simp] theorem length_wordBytes (x : BitVec 32) : (wordBytes x).length = 4 := rfl

/-- What the program stores of a word does not depend on the machine. -/
theorem storeWord_swap (host : HostOrder) (done : List UInt8) {p : ℕ} (hp : done.length = p)
    (rest : List UInt8) (x : BitVec 32) (hrest : 4 ≤ rest.length) :
    storeWord host (done ++ rest) p (md5Swap host x) =
      some (done ++ wordBytes x ++ rest.drop 4) := by
  have hbytes :
      (List.range 4).map (fun k => UInt8.ofNat (host.order.write (md5Swap host x).toNat k)) =
      wordBytes x := by
    apply List.map_congr_left
    intro k hk
    have hk4 : k < 4 := List.mem_range.mp hk
    cases host with
    | littleEndian => rfl
    | bigEndian =>
      have hlt := exchange_lt 4 x.toNat
      have hx : x.toNat < 256 ^ 4 := x.isLt
      rw [md5Swap_bigEndian, BitVec.toNat_ofNat, Nat.mod_eq_of_lt (show _ < 2 ^ 32 from hlt),
        HostOrder.order, write_msbFirst _ hk4, exchange_exchange hx]
      rfl
  have hwrite := writeCells_behind done rest (wordBytes x) (by simpa using hrest)
  rw [storeWord, hbytes, ← hp, hwrite, length_wordBytes]

/-- The padding behind the bytes in the buffer. -/
theorem padBuffer_eq (speed : Fin 4) (done rest : List UInt8) {zeros : ℕ} (hzeros : zeros < 64)
    (hrest : zeros + 1 ≤ rest.length) :
    padBuffer speed (done ++ rest) done.length (zeros + 1) =
      some (done ++ 0x80 :: List.replicate zeros 0 ++ rest.drop (zeros + 1)) := by
  have hset := writeCells_behind done rest (List.replicate (zeros + 1) 0) (by simpa using hrest)
  have hmark :=
    writeCells_behind done (List.replicate (zeros + 1) 0 ++ rest.drop (zeros + 1)) [0x80]
    (by
      simp only [List.length_cons, List.length_nil, List.length_append, List.length_replicate]
      omega)
  have hfill := memcpy_behind done rest fillbuf 0 (zeros + 1) hrest
    (by rw [fillbuf, List.length_cons, List.length_replicate]; omega)
  have hcells : fillbuf.take (zeros + 1) = 0x80 :: List.replicate zeros 0 := by
    rw [fillbuf, List.take_succ_cons, List.take_replicate, Nat.min_eq_left (by omega)]
  by_cases hspeed : speed > 0
  · rw [List.length_replicate, List.append_assoc] at hset
    rw [padBuffer, if_pos hspeed, hset, Option.bind_eq_bind, Option.bind_some, hmark]
    simp [List.replicate_succ]
  · rw [padBuffer, if_neg hspeed, hfill, List.drop_zero, hcells]
    simp

/-- The two words that hold the number of bits, from a counter of the bytes. -/
theorem lengthWords_eq (t₀ t₁ : BitVec 32) {n : ℕ}
    (h : t₀.toNat + 2 ^ 32 * t₁.toNat = n % 2 ^ 64) :
    wordBytes (t₀ <<< 3) ++ wordBytes (t₁ <<< 3 ||| t₀ >>> 29) =
      (List.range 8).map fun k => UInt8.ofNat (byteOf (8 * n) k) := by
  have h₀ := t₀.isLt
  have h₁ := t₁.isLt
  have hlow : (t₀ <<< 3).toNat = 8 * n % 2 ^ 32 := by
    rw [BitVec.toNat_shiftLeft, Nat.shiftLeft_eq]
    omega
  have hshift : (t₁ <<< 3).toNat = (t₁.toNat % 2 ^ 29) <<< 3 := by
    rw [BitVec.toNat_shiftLeft, Nat.shiftLeft_eq, Nat.shiftLeft_eq]
    omega
  have hhigh : (t₁ <<< 3 ||| t₀ >>> 29).toNat = 8 * n / 2 ^ 32 % 2 ^ 32 := by
    rw [BitVec.toNat_or, hshift, BitVec.toNat_ushiftRight,
      ← Nat.shiftLeft_add_eq_or_of_lt (by rw [Nat.shiftRight_eq_div_pow]; omega),
      Nat.shiftLeft_eq, Nat.shiftRight_eq_div_pow]
    omega
  have hupper : ∀ k, byteOf (8 * n / 2 ^ 32) k = byteOf (8 * n) (4 + k) := by
    intro k
    rw [byteOf, byteOf, ← Nat.shiftRight_eq_div_pow, ← Nat.shiftRight_add,
      show 32 + 8 * k = 8 * (4 + k) by omega]
  have hsplit : (List.range 8).map (fun k => UInt8.ofNat (byteOf (8 * n) k)) =
      (List.range 4).map (fun k => UInt8.ofNat (byteOf (8 * n) k)) ++
        (List.range 4).map (fun k => UInt8.ofNat (byteOf (8 * n) (4 + k))) := rfl
  rw [wordBytes, wordBytes, hlow, hhigh, hsplit]
  congr 1
  · refine List.map_congr_left fun k hk => ?_
    rw [byteOf_mod (by have := List.mem_range.mp hk; omega)]
  · refine List.map_congr_left fun k hk => ?_
    rw [byteOf_mod (by have := List.mem_range.mp hk; omega), hupper]

/-- How much the program pads. -/
theorem pad_eq (bytes : BitVec 32) (hfew : bytes.toNat ≤ 64) :
    (if bytes ≥ 56 then 64 + 56 - bytes else 56 - bytes).toNat =
      (119 - bytes.toNat % 64) % 64 + 1 := by
  have hge : (bytes ≥ 56) ↔ 56 ≤ bytes.toNat := Iff.rfl
  split
  · rename_i h
    have hlarge := hge.mp h
    have hsub : (64 + 56 - bytes).toNat = 120 - bytes.toNat :=
      BitVec.toNat_sub_of_le (show bytes.toNat ≤ 120 by omega)
    rw [hsub]
    omega
  · rename_i h
    have hsmall : ¬ 56 ≤ bytes.toNat := fun hle => h (hge.mpr hle)
    have hsub : (56 - bytes).toNat = 56 - bytes.toNat :=
      BitVec.toNat_sub_of_le (show bytes.toNat ≤ 56 by omega)
    rw [hsub]
    omega

/-- The result, the registers one after the other. -/
theorem storeRegs_eq (host : HostOrder) (r : Md5Regs) {resbuf : List UInt8}
    (hres : 16 ≤ resbuf.length) :
    storeRegs host resbuf r = some (regsBytes r ++ resbuf.drop 16) := by
  have hroom : ∀ i ≤ 12, 4 ≤ (resbuf.drop i).length := by
    intro i hi
    rw [List.length_drop]
    omega
  have ha := storeWord_swap host [] (show _ = 0 from rfl) resbuf r.a (by omega)
  have hb := storeWord_swap host (wordBytes r.a) (show _ = 4 from rfl) (resbuf.drop 4) r.b
    (hroom 4 (by decide))
  have hc := storeWord_swap host (wordBytes r.a ++ wordBytes r.b) (show _ = 8 from rfl)
    (resbuf.drop 8) r.c (hroom 8 (by decide))
  have hd := storeWord_swap host (wordBytes r.a ++ wordBytes r.b ++ wordBytes r.c)
    (show _ = 12 from rfl) (resbuf.drop 12) r.d (hroom 12 (by decide))
  simp only [List.nil_append, List.drop_drop] at ha hb hc hd
  simp only [storeRegs, ha, hb, hc, hd, Option.bind_eq_bind, Option.bind_some, regsBytes]

/-- The buffer at the end of a message: the bytes in it, with the padding of the message behind
them. -/
theorem finishBuffer_eq (speed : Fin 4) (host : HostOrder) {ctx : Md5Ctx}
    {message pending rest : List UInt8} (hbuffer : ctx.buffer = pending ++ rest)
    (hroom : ctx.buffer.length = 128) (hfew : pending.length ≤ 64) {zeros : ℕ}
    (hzeros : zeros = (119 - message.length % 64) % 64)
    (hfits : pending.length + (zeros + 1) + 8 ≤ 128)
    (htotal : md5Total ctx = message.length % 2 ^ 64) :
    finishBuffer speed host ctx pending.length (zeros + 1) =
      some (pending ++ md5Padding message.length ++ rest.drop (zeros + 9)) := by
  have hrest : rest.length = 128 - pending.length := by
    rw [← hroom, hbuffer, List.length_append, Nat.add_sub_cancel_left]
  have hpad := padBuffer_eq speed pending rest (show zeros < 64 by omega) (by omega)
  obtain ⟨front, hfront⟩ : ∃ front, front = pending ++ 0x80 :: List.replicate zeros 0 := ⟨_, rfl⟩
  have hdone : front.length = pending.length + (zeros + 1) := by
    rw [hfront, List.length_append, List.length_cons, List.length_replicate]
  have hlow := storeWord_swap host front hdone (rest.drop (zeros + 1)) (ctx.total₀ <<< 3)
    (by rw [List.length_drop]; omega)
  have hhigh := storeWord_swap host (front ++ wordBytes (ctx.total₀ <<< 3))
    (show _ = pending.length + (zeros + 1) + 4 by rw [List.length_append, hdone]; rfl)
    ((rest.drop (zeros + 1)).drop 4) (ctx.total₁ <<< 3 ||| ctx.total₀ >>> 29)
    (by rw [List.length_drop, List.length_drop]; omega)
  have hwords := lengthWords_eq ctx.total₀ ctx.total₁ htotal
  rw [← hfront] at hpad
  simp only [finishBuffer, hbuffer, hpad, hlow, hhigh, Option.bind_eq_bind, Option.bind_some]
  rw [md5Padding, ← hwords, ← hzeros, hfront, List.drop_drop, List.drop_drop]
  simp only [List.append_assoc, List.cons_append]

/-- **The end of a message**: the result is its sum. -/
theorem md5FinishCtx_eq {ctx : Md5Ctx} {message : List UInt8} (h : Md5Holds 64 ctx message)
    (speed : Fin 4) (host : HostOrder) {resbuf : List UInt8} (hres : 16 ≤ resbuf.length) :
    (md5FinishCtx speed host resbuf ctx).map Prod.fst = some (md5 message ++ resbuf.drop 16) := by
  obtain ⟨hroom, hfew, habsorbed, hcounted⟩ := h
  obtain ⟨k, hk⟩ := habsorbed.length_eq
  -- The bytes in the buffer, and what is behind them.
  obtain ⟨pending, hpending⟩ : ∃ pending, pending = ctx.buffer.take ctx.buflen.toNat := ⟨_, rfl⟩
  obtain ⟨rest, hrest⟩ : ∃ rest, rest = ctx.buffer.drop ctx.buflen.toNat := ⟨_, rfl⟩
  have hbuffer : ctx.buffer = pending ++ rest := by
    rw [hpending, hrest, List.take_append_drop]
  have hlen : pending.length = ctx.buflen.toNat := by
    rw [hpending, List.length_take]
    omega
  rw [← hpending] at habsorbed hk
  -- The context when the bytes in the buffer are counted.
  obtain ⟨ctx₁, hctx₁⟩ : ∃ ctx₁, ctx₁ = countBytes ctx ctx.buflen.toNat := ⟨_, rfl⟩
  have hregs : ctx₁.regs = ctx.regs := by rw [hctx₁]; rfl
  have hbuffer₁ : ctx₁.buffer = pending ++ rest := by rw [hctx₁, ← hbuffer]; rfl
  have htotal : md5Total ctx₁ = message.length % 2 ^ 64 := by
    rw [hctx₁, ← hcounted]
    exact total_countBytes (by omega)
  obtain ⟨zeros, hzeros⟩ : ∃ zeros, zeros = (119 - message.length % 64) % 64 := ⟨_, rfl⟩
  have hpad := pad_eq ctx.buflen hfew
  rw [show ctx.buflen.toNat % 64 = message.length % 64 by omega, ← hzeros] at hpad
  obtain ⟨j, hj⟩ : ∃ j, ctx.buflen.toNat + (zeros + 1) + 8 = 64 * j :=
    ⟨(ctx.buflen.toNat + (zeros + 1) + 8) / 64, by omega⟩
  have hfinish := finishBuffer_eq speed host hbuffer₁ (by rw [hbuffer₁, ← hbuffer, hroom])
    (by omega) hzeros (by omega) htotal
  have hcells : (pending ++ md5Padding message.length).length = 64 * j := by
    rw [← hj, ← hlen, hzeros]
    simp only [md5Padding, List.length_append, List.length_cons, List.length_replicate,
      List.length_map, List.length_range]
    omega
  have hblock := md5ProcessBlock_eq speed host (p := 0) (k := j)
    (show 0 + 64 * j ≤ (pending ++ md5Padding message.length ++ rest.drop (zeros + 9)).length by
      rw [List.length_append, hcells]; omega)
    { ctx₁ with buffer := pending ++ md5Padding message.length ++ rest.drop (zeros + 9) }
  have hsum : blocks compress 64 j ctx.regs
      ((pending ++ md5Padding message.length ++ rest.drop (zeros + 9)).drop 0) =
      absorbAll compress 64 md5Start (message ++ md5Padding message.length) := by
    have hwhole := blocks_append (f := compress) 0 ctx.regs (rest.drop (zeros + 9)) hcells
    rw [Nat.add_zero] at hwhole
    rw [List.drop_zero, hwhole, blocks, habsorbed.finish (by decide) hcells]
  have hresult := storeRegs_eq host
    (absorbAll compress 64 md5Start (message ++ md5Padding message.length)) hres
  rw [hlen] at hfinish
  simp only [hregs, hsum] at hblock
  simp only [md5FinishCtx, ← hctx₁, hpad, hfinish, hj, hregs, hblock, hresult, Option.bind_eq_bind,
    Option.bind_some, Option.pure_def, Option.map_some, md5]

/-- **Any pieces** one after the other. -/
theorem pieces_holds (speed : Fin 4) (host : HostOrder) (pieces : List (List UInt8))
    (hpieces : ∀ piece ∈ pieces, piece.length < 2 ^ 32) {ctx : Md5Ctx} {message : List UInt8}
    (h : Md5Holds 64 ctx message) :
    ∃ ctx', pieces.foldlM (fun ctx piece => md5ProcessBytes speed host piece piece.length ctx) ctx =
        some ctx' ∧ Md5Holds 64 ctx' (message ++ pieces.flatten) := by
  induction pieces generalizing ctx message with
  | nil => exact ⟨ctx, rfl, by simpa using h⟩
  | cons piece pieces ih =>
    obtain ⟨ctx₁, hfirst, h₁⟩ :=
      md5ProcessBytes_holds h speed host (Nat.le_refl piece.length)
          (hpieces piece List.mem_cons_self)
    obtain ⟨ctx₂, hrest, h₂⟩ := ih (fun p hp => hpieces p (List.mem_cons_of_mem _ hp)) h₁
    refine ⟨ctx₂, ?_, ?_⟩
    · rw [List.foldlM_cons, hfirst, Option.bind_eq_bind, Option.bind_some, hrest]
    · rwa [List.take_length, List.append_assoc, ← List.flatten_cons] at h₂

/-- The sum of a message that stands in one block of memory. -/
theorem md5Buffer_eq (speed : Fin 4) (host : HostOrder) {ctx : Md5Ctx}
    {buffer resblock : List UInt8}
    {len : ℕ} (hctx : ctx.buffer.length = 128) (hlen : len ≤ buffer.length) (hsmall : len < 2 ^ 32)
    (hres : 16 ≤ resblock.length) :
    md5Buffer speed host ctx buffer len resblock =
      some (md5 (buffer.take len) ++ resblock.drop 16) := by
  obtain ⟨ctx₁, hbytes, h₁⟩ :=
    md5ProcessBytes_holds (md5Holds_init hctx) speed host hlen hsmall
  rw [List.nil_append] at h₁
  obtain ⟨result, hresult, hfst⟩ := Option.map_eq_some_iff.mp (md5FinishCtx_eq h₁ speed host hres)
  simp only [md5Buffer, hbytes, hresult, hfst, Option.bind_eq_bind, Option.bind_some,
    Option.pure_def]

/-! ## Streams -/

/-- What one call of `fread` gives: a front of the bytes, empty only at their end. -/
theorem fread_eq (stream : Stream) {n : ℕ} (hn : 0 < n) :
    ∃ k stream', stream.fread n = (stream.bytes.take k, stream') ∧ k ≤ stream.bytes.length ∧ k ≤ n ∧
      (k = 0 ↔ stream.bytes = []) ∧ stream'.bytes = stream.bytes.drop k ∧
      stream'.failed = stream.failed := by
  obtain ⟨most, hmost, hle, hpos⟩ : ∃ most, stream.fread n = (stream.bytes.take most,
      ⟨stream.bytes.drop most, stream.grants.tail, stream.failed⟩) ∧ most ≤ n ∧ 0 < most := by
    rw [Stream.fread]
    cases stream.grants with
    | nil => exact ⟨n, rfl, Nat.le_refl n, hn⟩
    | cons grant grants => exact ⟨min n (grant + 1), rfl, by omega, by omega⟩
  refine ⟨min most stream.bytes.length, ⟨stream.bytes.drop most, stream.grants.tail, stream.failed⟩,
    ?_, by omega, by omega, ?_, ?_, rfl⟩
  · rw [hmost, ← List.take_eq_take_min]
  · rw [← List.length_eq_zero_iff]
    omega
  · rcases Nat.le_total most stream.bytes.length with h | h
    · rw [Nat.min_eq_left h]
    · rw [Nat.min_eq_right h, List.drop_eq_nil_of_le h, List.drop_length]

/-- **A block is read** however `fread` gives it out: as many bytes as there are, up to a whole
block, and the last call gave none exactly if there were too few. -/
theorem readBlock_eq {fuel sum : ℕ} {buffer : List UInt8} (stream : Stream)
    (hbuffer : BLOCKSIZE ≤ buffer.length) (hsum : sum < BLOCKSIZE)
    (hfuel : BLOCKSIZE - sum < fuel) :
    ∃ n buffer' stream', readBlock fuel buffer sum stream =
        some (n, min BLOCKSIZE (sum + stream.bytes.length), buffer', stream') ∧
      (n = 0 ↔ sum + stream.bytes.length < BLOCKSIZE) ∧
      buffer'.length = buffer.length ∧
      buffer'.take (min BLOCKSIZE (sum + stream.bytes.length)) =
        buffer.take sum ++ stream.bytes.take (BLOCKSIZE - sum) ∧
      stream'.bytes = stream.bytes.drop (BLOCKSIZE - sum) ∧ stream'.failed = stream.failed := by
  induction fuel generalizing sum buffer stream with
  | zero => omega
  | succ fuel ih =>
    obtain ⟨k, stream₁, hfread, hk, hasked, hend, hbytes₁, hfailed₁⟩ :=
      fread_eq stream (show 0 < BLOCKSIZE - sum by omega)
    have hcells : (stream.bytes.take k).length = k := List.length_take_of_le hk
    have hheld : (buffer.take sum).length = sum := List.length_take_of_le (by omega)
    have hwrite := writeCells_behind (buffer.take sum) (buffer.drop sum) (stream.bytes.take k)
      (by rw [hcells, List.length_drop]; omega)
    rw [List.take_append_drop, hheld, hcells, List.drop_drop] at hwrite
    obtain ⟨buffer₁, hbuffer₁⟩ : ∃ buffer₁, buffer₁ =
        buffer.take sum ++ stream.bytes.take k ++ buffer.drop (sum + k) := ⟨_, rfl⟩
    have hfront : (buffer.take sum ++ stream.bytes.take k).length = sum + k := by
      rw [List.length_append, hheld, hcells]
    have hlength : buffer₁.length = buffer.length := by
      rw [hbuffer₁, List.length_append, hfront, List.length_drop]
      omega
    have htaken : buffer₁.take (sum + k) = buffer.take sum ++ stream.bytes.take k := by
      rw [hbuffer₁, List.take_left' hfront]
    rw [← hbuffer₁] at hwrite
    simp only [readBlock, hfread, hwrite, hcells, Option.bind_eq_bind, Option.bind_some,
      Option.pure_def]
    have hleft : stream₁.bytes.length = stream.bytes.length - k := by
      rw [hbytes₁, List.length_drop]
    by_cases hmore : sum + k < BLOCKSIZE ∧ k ≠ 0
    · obtain ⟨n, buffer', stream', hread, hlast, hlength', htake, hbytes', hfailed'⟩ :=
        ih stream₁ (hlength ▸ hbuffer) hmore.1 (show BLOCKSIZE - (sum + k) < fuel by omega)
      have hsum' : sum + k + stream₁.bytes.length = sum + stream.bytes.length := by omega
      rw [hsum'] at hread hlast htake
      refine ⟨n, buffer', stream', ?_, hlast, hlength'.trans hlength, ?_, ?_,
        hfailed'.trans hfailed₁⟩
      · rw [if_pos hmore, hread]
      · rw [htake, htaken, hbytes₁, List.append_assoc, ← List.take_add]
        congr 2
        omega
      · rw [hbytes', hbytes₁, List.drop_drop]
        congr 1
        omega
    · -- The block is full, or there are no more bytes.
      have hdone : k = BLOCKSIZE - sum ∨ (k = 0 ∧ stream.bytes = []) := by
        rcases Nat.eq_zero_or_pos k with hzero | hpos
        · exact .inr ⟨hzero, hend.mp hzero⟩
        · exact .inl (by omega)
      refine ⟨k, buffer₁, stream₁, ?_, ?_, hlength, ?_, ?_, hfailed₁⟩
      · rw [if_neg hmore]
        congr 3
        rcases hdone with h | ⟨h, hnil⟩
        · omega
        · rw [h, hnil, List.length_nil]
          omega
      · rcases hdone with h | ⟨h, hnil⟩
        · omega
        · rw [h, hnil, List.length_nil]
          omega
      · rcases hdone with h | ⟨h, hnil⟩
        · rw [show min BLOCKSIZE (sum + stream.bytes.length) = sum + k by omega, htaken, ← h]
        · rw [hnil, List.length_nil, show min BLOCKSIZE (sum + 0) = sum + k by omega, htaken, hnil,
            List.take_nil, List.take_nil]
      · rcases hdone with h | ⟨h, hnil⟩
        · rw [hbytes₁, h]
        · rw [hbytes₁, hnil, List.drop_nil, List.drop_nil]

/-- **The loop of `md5_stream`** ends: at an error with the value one, and else at the end of the
bytes, with what is left of them in the block. -/
theorem streamLoop_eq (speed : Fin 4) (host : HostOrder) {fuel : ℕ} {buffer : List UInt8}
    (stream : Stream) {ctx : Md5Ctx} {message : List UInt8} (hbuffer : BLOCKSIZE ≤ buffer.length)
    (hfuel : stream.bytes.length < fuel * BLOCKSIZE) (h : Md5Holds 64 ctx message)
    (hempty : ctx.buflen = 0) :
    if stream.failed then streamLoop speed host fuel buffer stream ctx = some (.inl 1)
    else ∃ sum buffer' ctx' taken,
      streamLoop speed host fuel buffer stream ctx = some (.inr (sum, buffer', ctx')) ∧
        stream.bytes = taken ++ buffer'.take sum ∧ sum < BLOCKSIZE ∧ sum ≤ buffer'.length ∧
        Md5Holds 64 ctx' (message ++ taken) := by
  induction fuel generalizing buffer stream ctx message with
  | zero => omega
  | succ fuel ih =>
    obtain ⟨n, buffer', stream', hread, hlast, hlength, htake, hbytes', hfailed'⟩ :=
      readBlock_eq stream hbuffer (show 0 < BLOCKSIZE by decide)
        (show BLOCKSIZE - 0 < BLOCKSIZE + 1 by decide)
    rw [Nat.zero_add, List.take_zero, List.nil_append, Nat.sub_zero] at htake
    rw [Nat.zero_add] at hread hlast
    rw [Nat.sub_zero] at hbytes'
    simp only [streamLoop, hread, Option.bind_eq_bind, Option.bind_some, Option.pure_def]
    by_cases hend : n = 0
    · -- The last bytes are in the block.
      have hshort := hlast.mp hend
      rw [Nat.min_eq_right hshort.le, List.take_of_length_le hshort.le] at htake
      rw [Nat.min_eq_right hshort.le]
      cases hfails : stream.failed with
      | true => simp [hend, hfailed', hfails]
      | false =>
        simp only [hend, hfailed', hfails, Bool.false_eq_true, and_false, if_false, if_true]
        refine ⟨_, _, _, [], rfl, htake.symm, hshort, by omega, ?_⟩
        rwa [List.append_nil]
    · have hfull : BLOCKSIZE ≤ stream.bytes.length :=
        Nat.le_of_not_lt fun hshort => hend (hlast.mpr hshort)
      rw [Nat.min_eq_left hfull] at htake
      obtain ⟨ctx₁, hblock, hempty₁, h₁⟩ := md5ProcessBlock_holds h hempty speed host (p := 0)
        (k := 64) (show 0 + BLOCKSIZE ≤ buffer'.length by omega) (by decide)
      rw [List.drop_zero, show 64 * 64 = BLOCKSIZE from rfl, htake] at h₁
      rw [show 64 * 64 = BLOCKSIZE from rfl] at hblock
      have hrest := ih stream' (hlength ▸ hbuffer)
        (by rw [hbytes', List.length_drop]; rw [Nat.succ_mul] at hfuel; omega) h₁ hempty₁
      simp only [hend, false_and, if_false, hblock, Option.bind_some]
      rw [hfailed'] at hrest
      split at hrest
      · rename_i hfails
        rw [if_pos hfails]
        exact hrest
      · rename_i hfails
        obtain ⟨sum, buffer'', ctx', taken, hloop, hsplit, hsum, hroom, h'⟩ := hrest
        rw [if_neg hfails]
        refine ⟨sum, buffer'', ctx', stream.bytes.take BLOCKSIZE ++ taken, hloop, ?_, hsum,
          hroom, ?_⟩
        · rw [List.append_assoc, ← hsplit, hbytes', List.take_append_drop]
        · rwa [← List.append_assoc]

end Ctools.Analysis

open Ctools.Library Ctools.Program Ctools.Interface in
/-- **Four texts, two byte orders, one sum**: whichever of its four texts `md5_process_block` is
compiled from, and whichever byte order the machine has, it takes the registers through the
steps of the algorithm for every block of 64 bytes it is given, from whatever registers. -/
theorem Ctools.Analysis.md5ProcessBlock_registers (speed : Fin 4) (host : HostOrder)
    {memory : List UInt8} {p k : ℕ} (hp : p + 64 * k ≤ memory.length) (ctx : Md5Ctx) :
    (md5ProcessBlock speed host memory p (64 * k) ctx).map (·.regs) =
      some (blocks compress 64 k ctx.regs (memory.drop p)) := by
  rw [md5ProcessBlock_eq speed host hp]
  rfl

open Ctools.Library Ctools.Program Ctools.Interface in
/-- The registers behind one block that begins at an odd address. -/
theorem Ctools.Analysis.md5ProcessBlock_registers_at :
    (md5ProcessBlock 1 .bigEndian (List.replicate 70 7) 3 (64 * 1)
        ⟨⟨1, 2, 3, 4⟩, 5, 6, 7, []⟩).map (·.regs) =
      some (blocks compress 64 1 ⟨1, 2, 3, 4⟩ ((List.replicate 70 7).drop 3)) :=
  Ctools.Analysis.md5ProcessBlock_registers 1 .bigEndian (by decide) ⟨⟨1, 2, 3, 4⟩, 5, 6, 7, []⟩

open Ctools.Library Ctools.Program Ctools.Interface in
/-- **When the counter is right**: after a call of `md5_process_block` for `len` bytes the two
words hold the number of bytes so far modulo 2^64, if and only if the lower word and `len` come
to less than 2^33: one carry is all that is noticed. -/
theorem Ctools.Analysis.md5_counter_iff (speed : Fin 4) (host : HostOrder) {memory : List UInt8}
    {p k : ℕ} (hp : p + 64 * k ≤ memory.length) (hlen : 64 * k < 2 ^ 64) (ctx : Md5Ctx) :
    (md5ProcessBlock speed host memory p (64 * k) ctx).map md5Total =
        some ((md5Total ctx + 64 * k) % 2 ^ 64) ↔
      ctx.total₀.toNat + 64 * k < 2 ^ 33 := by
  rw [md5ProcessBlock_eq speed host hp, Option.map_some, Option.some_inj]
  exact total_countBytes_iff ctx hlen

open Ctools.Library Ctools.Program Ctools.Interface in
/-- One block, counted in full: the lower word and its length come to less than 2^33. -/
theorem Ctools.Analysis.md5_counter_iff_at :
    (md5ProcessBlock 0 .littleEndian (List.replicate 64 7) 0 (64 * 1)
        ⟨⟨1, 2, 3, 4⟩, 5, 6, 7, []⟩).map md5Total =
      some ((md5Total ⟨⟨1, 2, 3, 4⟩, 5, 6, 7, []⟩ + 64 * 1) % 2 ^ 64) :=
  (Ctools.Analysis.md5_counter_iff 0 .littleEndian (by decide) (by decide)
    ⟨⟨1, 2, 3, 4⟩, 5, 6, 7, []⟩).mpr (by decide)

open Ctools.Library Ctools.Program Ctools.Interface in
/-- **Any pieces**: a message given to `md5_process_bytes` in pieces of any lengths, each below
2^32 bytes, comes to the sum of the whole message, in every text of the program and with either
byte order; what is behind the first 16 bytes of the result stays. -/
theorem Ctools.Analysis.md5_of_pieces (speed : Fin 4) (host : HostOrder)
    (pieces : List (List UInt8)) {ctx : Md5Ctx} {resbuf : List UInt8}
    (hctx : ctx.buffer.length = 128) (hres : 16 ≤ resbuf.length)
    (hpieces : ∀ piece ∈ pieces, piece.length < 2 ^ 32) :
    (do
      let ctx ← pieces.foldlM
        (fun ctx piece => md5ProcessBytes speed host piece piece.length ctx) (md5InitCtx ctx)
      let (resbuf, _) ← md5FinishCtx speed host resbuf ctx
      pure resbuf) = some (md5 pieces.flatten ++ resbuf.drop 16) := by
  obtain ⟨ctx', hfold, hholds⟩ := pieces_holds speed host pieces hpieces (md5Holds_init hctx)
  rw [List.nil_append] at hholds
  have hfinish := md5FinishCtx_eq hholds speed host hres
  rw [hfold, Option.bind_eq_bind, Option.bind_some, ← hfinish]
  cases md5FinishCtx speed host resbuf ctx' with
  | none => rfl
  | some result => rfl

open Ctools.Library Ctools.Program Ctools.Interface in
/-- `abc` in three pieces, one of them empty. -/
theorem Ctools.Analysis.md5_of_pieces_at :
    (do
      let ctx ← [[97], [], [98, 99]].foldlM
        (fun ctx piece => md5ProcessBytes 2 .bigEndian piece piece.length ctx)
        (md5InitCtx ⟨⟨1, 2, 3, 4⟩, 5, 6, 7, List.replicate 128 0⟩)
      let (resbuf, _) ← md5FinishCtx 2 .bigEndian (List.replicate 17 0) ctx
      pure resbuf) =
        some (md5 [[97], [], [98, 99]].flatten ++ (List.replicate 17 0).drop 16) :=
  Ctools.Analysis.md5_of_pieces 2 .bigEndian [[97], [], [98, 99]] (List.length_replicate)
    (by decide) (by decide)

open Ctools.Library Ctools.Program Ctools.Interface in
/-- **Any partial reads**: however few bytes `fread` gives at a time, `md5_stream` ends, and
comes to the sum of the bytes of the stream and zero; unless there is an error behind them: then
to one, with the result as it was. -/
theorem Ctools.Analysis.md5Stream_eq (speed : Fin 4) (host : HostOrder) {fuel : ℕ} {ctx : Md5Ctx}
    {buffer resblock : List UInt8} {stream : Stream} (hctx : ctx.buffer.length = 128)
    (hbuffer : buffer.length = BLOCKSIZE + 72) (hres : 16 ≤ resblock.length)
    (hfuel : stream.bytes.length < fuel * BLOCKSIZE) :
    md5Stream speed host fuel ctx buffer stream resblock =
      some (if stream.failed then (1, resblock)
        else (0, md5 stream.bytes ++ resblock.drop 16)) := by
  have hloop := streamLoop_eq speed host stream
    (show BLOCKSIZE ≤ buffer.length by omega) hfuel (md5Holds_init hctx) rfl
  simp only [md5Stream]
  split at hloop
  · rename_i hfails
    rw [hloop, if_pos hfails]
    rfl
  · rename_i hfails
    obtain ⟨sum, buffer', ctx', taken, hleft, hsplit, hsum, hroom, hholds⟩ := hloop
    rw [List.nil_append] at hholds
    obtain ⟨ctx₁, hlast, h₁⟩ : ∃ ctx₁, (if sum > 0 then md5ProcessBytes speed host buffer' sum ctx'
        else some ctx') = some ctx₁ ∧ Md5Holds 64 ctx₁ stream.bytes := by
      rw [hsplit]
      by_cases hmore : sum > 0
      · obtain ⟨ctx₁, hbytes, h₁⟩ := md5ProcessBytes_holds hholds speed host hroom
          (hsum.trans (by decide))
        exact ⟨ctx₁, by rw [if_pos hmore, hbytes], h₁⟩
      · obtain rfl : sum = 0 := by omega
        exact ⟨ctx', if_neg hmore, by rwa [List.take_zero, List.append_nil]⟩
    have hfinish := md5FinishCtx_eq h₁ speed host hres
    obtain ⟨result, hresult, hfst⟩ := Option.map_eq_some_iff.mp hfinish
    simp only [hleft, Option.bind_eq_bind, Option.bind_some, hlast, hresult, Option.pure_def,
      if_neg hfails, hfst]

open Ctools.Library Ctools.Program Ctools.Interface in
/-- A stream of three bytes, of which two calls of `fread` give one each. -/
theorem Ctools.Analysis.md5Stream_eq_at :
    md5Stream 3 .littleEndian 1 ⟨⟨1, 2, 3, 4⟩, 5, 6, 7, List.replicate 128 0⟩
        (List.replicate (BLOCKSIZE + 72) 0) ⟨[97, 98, 99], [0, 0], false⟩ (List.replicate 16 0) =
      some (if (false = true) then (1, List.replicate 16 0)
        else (0, md5 [97, 98, 99] ++ (List.replicate 16 0).drop 16)) :=
  Ctools.Analysis.md5Stream_eq 3 .littleEndian (List.length_replicate) (List.length_replicate)
    (by decide) (by decide)
