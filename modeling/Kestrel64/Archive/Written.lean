import Kestrel64.Archive.Deflate

/-! # DEFLATE Streams, from the Reader's Side

    What bits are a DEFLATE stream, whoever wrote them. The writer of
    `Deflate` takes one code for each length; here a length may have any code
    that stands for it (258 has two).

    * `Stream pos out bits res`: from bit `pos` on, after `out`, the bits begin
      with blocks up to the last one, and `res` is what they stand for.
    * `Oversubscribed`: up to some dynamic block they are as they have to be, but
      the distance lengths of this block are not those of a prefix-free code.
-/

namespace Archive.Deflate

open BitStream CanonicalCode

/-! ## Section 1: Tokens -/

/-- Code `i` of the rows, with `x` in its extra bits, stands for `n`. -/
structure Stands (rows : List (Nat × Nat)) (i x n : Nat) : Prop where
  code : i < rows.length
  extra : x < 2 ^ (rows.getD i (0, 0)).2
  value : (rows.getD i (0, 0)).1 + x = n

/-- The four fields of a copy. -/
def copyBits (lit dist : List Nat) (i x j y : Nat) : List Bool :=
  word lit (257 + i) ++ lsb (lengthRows.getD i (0, 0)).2 x ++
    word dist j ++ lsb (distRows.getD j (0, 0)).2 y

/-- The bits of a token after `out`. -/
def Token.Written (lit dist : List Nat) (out : Bytes) (bits : List Bool) : Token → Prop
  | literal c => lit.getD c.toNat 0 ≠ 0 ∧ bits = word lit c.toNat
  | copy len d => d ≤ out.length ∧ ∃ i x j y, Stands lengthRows i x len ∧ Stands distRows j y d ∧
      lit.getD (257 + i) 0 ≠ 0 ∧ dist.getD j 0 ≠ 0 ∧ bits = copyBits lit dist i x j y

/-- The bits of the tokens of a block and its end. -/
inductive Tokens (lit dist : List Nat) : Bytes → List Token → List Bool → Prop
  | stop {out : Bytes} (h : lit.getD 256 0 ≠ 0) : Tokens lit dist out [] (word lit 256)
  | token {out : Bytes} {t : Token} {ts : List Token} {bits rest : List Bool}
      (ht : t.Written lit dist out bits) (hts : Tokens lit dist (t.expand out) ts rest) :
      Tokens lit dist out (t :: ts) (bits ++ rest)

theorem stop_of_tokens {lit dist : List Nat} {out : Bytes} {toks : List Token} {bits : List Bool}
    (h : Tokens lit dist out toks bits) : lit.getD 256 0 ≠ 0 := by
  induction h with
  | stop hstop => exact hstop
  | token _ _ ih => exact ih

/-! ## Section 2: Blocks and streams -/

/-- The bits of a block at bit `pos`, after its type. -/
def Block.Written (pos : Nat) (out : Bytes) (bits : List Bool) : Block → Prop
  | stored pad data => (Block.stored pad data).Legal pos out ∧ bits = (Block.stored pad data).body
  | fixed toks => Tokens fixedLitLens fixedDistLens out toks bits
  | dynamic h toks => h.Legal ∧ ∃ tail, Tokens h.lit h.dist out toks tail ∧ bits = h.encode ++ tail

inductive Stream : Nat → Bytes → List Bool → Bytes → Prop
  | last {pos : Nat} {out : Bytes} {blk : Block} {body rest : List Bool}
      (h : blk.Written pos out body) :
      Stream pos out (true :: (lsb 2 blk.type ++ (body ++ rest))) (blk.expand out)
  | more {pos : Nat} {out res : Bytes} {blk : Block} {body rest : List Bool}
      (h : blk.Written pos out body)
      (hrest : Stream (pos + 3 + body.length) (blk.expand out) rest res) :
      Stream pos out (false :: (lsb 2 blk.type ++ (body ++ rest))) res

/-- What is asked of a header before its block is read, but for the distances. -/
structure Header.Announced (h : Header) : Prop where
  lit : 257 ≤ h.lit.length ∧ h.lit.length ≤ 286
  dist : 1 ≤ h.dist.length ∧ h.dist.length ≤ 32
  cl : h.cl.length = 19
  sent : 4 ≤ h.sent ∧ h.sent ≤ 19
  unsent : ∀ s ∈ sendOrder.drop h.sent, h.cl.getD s 0 = 0
  clKraft : Kraft 7 h.cl
  syms : Along (LenSym.Legal h.cl) LenSym.expand [] h.syms
  coded : h.syms.foldl LenSym.expand [] = h.lit ++ h.dist

instance (h : Header) : Decidable h.Announced :=
  decidable_of_iff ((257 ≤ h.lit.length ∧ h.lit.length ≤ 286) ∧
      (1 ≤ h.dist.length ∧ h.dist.length ≤ 32) ∧ h.cl.length = 19 ∧ (4 ≤ h.sent ∧ h.sent ≤ 19) ∧
      (∀ s ∈ sendOrder.drop h.sent, h.cl.getD s 0 = 0) ∧ Kraft 7 h.cl ∧
      Along (LenSym.Legal h.cl) LenSym.expand [] h.syms ∧
      h.syms.foldl LenSym.expand [] = h.lit ++ h.dist)
    ⟨fun ⟨a, b, c, d, e, f, g, i⟩ => ⟨a, b, c, d, e, f, g, i⟩,
      fun ⟨a, b, c, d, e, f, g, i⟩ => ⟨a, b, c, d, e, f, g, i⟩⟩

inductive Oversubscribed : Nat → Bytes → List Bool → Prop
  | here {pos : Nat} {out : Bytes} {last : Bool} {h : Header} {rest : List Bool}
      (hh : h.Announced) (hlit : Kraft 15 h.lit) (hdist : ¬ Kraft 15 h.dist) :
      Oversubscribed pos out (last :: (lsb 2 2 ++ (h.encode ++ rest)))
  | later {pos : Nat} {out : Bytes} {blk : Block} {body rest : List Bool}
      (h : blk.Written pos out body)
      (hrest : Oversubscribed (pos + 3 + body.length) (blk.expand out) rest) :
      Oversubscribed pos out (false :: (lsb 2 blk.type ++ (body ++ rest)))

/-- The first block of a stream. -/
theorem stream_cases {pos : Nat} {out res : Bytes} {bits : List Bool} (h : Stream pos out bits res) :
    ∃ (last : Bool) (blk : Block) (body rest : List Bool), blk.Written pos out body ∧
      bits = last :: (lsb 2 blk.type ++ (body ++ rest)) ∧
      (last = false → Stream (pos + 3 + body.length) (blk.expand out) rest res) := by
  cases h with
  | last h => exact ⟨true, _, _, _, h, rfl, fun hlast => Bool.noConfusion hlast⟩
  | more h hrest => exact ⟨false, _, _, _, h, rfl, fun _ => hrest⟩

/-! ## Section 3: What a writer writes -/

theorem Header.Legal.announced {h : Header} (hl : h.Legal) : h.Announced :=
  ⟨hl.lit, hl.dist, hl.cl, hl.sent, hl.unsent, hl.clKraft, hl.syms, hl.coded⟩

theorem stands_row {top n : Nat} {rows : List (Nat × Nat)} (hc : Covers top rows)
    (hlo : (rows.headD (0, 0)).1 ≤ n) (hn : n ≤ top) :
    Stands rows (row rows n).1 (row rows n).2 n := by
  obtain ⟨hi, hx, hsum⟩ := row_spec hc hlo hn
  exact ⟨hi, hx, hsum⟩

theorem Token.written_encode {lit dist : List Nat} {out : Bytes} {t : Token}
    (h : t.Legal lit dist out) : t.Written lit dist out (t.encode lit dist) := by
  cases t with
  | literal c => exact ⟨h, rfl⟩
  | copy len d =>
    obtain ⟨hlen, hd, hreach, hlsym, hdsym⟩ := h
    exact ⟨hreach, _, _, _, _, stands_row lengthRows_covers hlen.1 hlen.2,
      stands_row distRows_covers hd.1 hd.2, hlsym, hdsym, rfl⟩

theorem tokens_encode {lit dist : List Nat} {toks : List Token} {out : Bytes}
    (hstop : lit.getD 256 0 ≠ 0) (h : Along (Token.Legal lit dist) Token.expand out toks) :
    Tokens lit dist out toks (encodeTokens lit dist toks) := by
  induction toks generalizing out with
  | nil => exact .stop hstop
  | cons t toks ih =>
    have hcons : encodeTokens lit dist (t :: toks) =
        t.encode lit dist ++ encodeTokens lit dist toks := by
      simp [encodeTokens, List.append_assoc]
    rw [hcons]
    exact .token (Token.written_encode h.1) (ih h.2)

/-- The tables of a fixed block. The source builds 30 of the 32 distance codes; they are
    the same. -/
theorem fixed_lens : Kraft 15 fixedLitLens ∧ fixedLitLens.length ≤ 288 ∧
    fixedLitLens.getD 256 0 ≠ 0 ∧ Kraft 15 (List.replicate 30 5) ∧ ∀ j < 30,
      word fixedDistLens j = word (List.replicate 30 5) j ∧ fixedDistLens.getD j 0 ≠ 0 := by
  decide +kernel

/-- The body of a legal block. -/
theorem Block.written_body {blk : Block} {pos : Nat} {out : Bytes} (h : blk.Legal pos out) :
    blk.Written pos out blk.body := by
  cases blk with
  | stored pad data => exact ⟨h, rfl⟩
  | fixed toks => exact tokens_encode fixed_lens.2.2.1 h
  | dynamic hd toks => exact ⟨h.1, _, tokens_encode h.1.stop h.2, rfl⟩

/-- What a writer may write is a stream, whatever follows it. -/
theorem stream_encode {bs : List Block} {pos : Nat} {out : Bytes} (hne : bs ≠ [])
    (h : Legal pos out bs) (rest : List Bool) : Stream pos out (encode bs ++ rest) (expand bs out) := by
  induction bs generalizing pos out with
  | nil => exact absurd rfl hne
  | cons blk bs ih =>
    obtain ⟨hblk, hbs⟩ := h
    cases bs with
    | nil =>
      have hlast : Stream pos out (true :: (lsb 2 blk.type ++ (blk.body ++ rest))) (blk.expand out) :=
        .last (Block.written_body hblk)
      simpa [encode, Block.encode, expand] using hlast
    | cons blk' bs =>
      have hmore := Stream.more (Block.written_body hblk) (ih (by simp) hbs)
      simpa [encode_cons_cons, Block.encode, expand] using hmore

end Archive.Deflate
