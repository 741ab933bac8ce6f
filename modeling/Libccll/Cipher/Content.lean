import Mathlib.Data.Fin.Basic
import Libccll.Cipher.RoundTrip

/-! The layout does not depend on the message.
The arrays of the encoder are followed for all plaintexts at once. They differ only in the
data cells, and there as the plaintexts do.
-/

namespace Libccll.Klciph

open Foundation

/-- The arrays reached for each plaintext agree but for `n` data cells, one for each byte. -/
structure Woven (cells : Mem → Cells) (cell : Nat → Cell) (n : Nat) : Prop where
  bucket : ∀ p q, (cells p).bucket = (cells q).bucket
  marked : ∀ p, ∀ j < n, (cells p).bucket (cell j) = true
  distinct : ∀ j < n, ∀ k < n, cell j = cell k → j = k
  masked
    : ∀ p q, ∀ j < n, (cells p).buffer (cell j) ^^^ (cells q).buffer (cell j) = p j ^^^ q j
  same : ∀ p q x, (∀ j < n, x ≠ cell j) → (cells p).buffer x = (cells q).buffer x

/-- Before the data loop nothing depends on the plaintext. -/
theorem Woven.start (cells : Cells) : Woven (fun _ => cells) (fun _ => 0) 0 where
  bucket _ _ := rfl
  marked _ j h := absurd h (Nat.not_lt_zero j)
  distinct j h := absurd h (Nat.not_lt_zero j)
  masked _ _ j h := absurd h (Nat.not_lt_zero j)
  same _ _ _ _ := rfl

/-- The data cells after a pass: those of before, then the ones from `idx` on. -/
def cellsWith (cell : Nat → Cell) (n : Nat) (idx : Cell) : Nat → Cell :=
  fun j => if j < n then cell j else dataCell idx (j - n)

theorem cellsWith_old (cell : Nat → Cell) {n j : Nat} (idx : Cell) (old : j < n)
    : cellsWith cell n idx j = cell j :=
  if_pos old

theorem cellsWith_new (cell : Nat → Cell) (n : Nat) (idx : Cell) (t : Nat)
    : cellsWith cell n idx (n + t) = dataCell idx t := by
  rw [cellsWith, if_neg (by omega), Nat.add_sub_cancel_left]

section

variable {cells : Mem → Cells} {cell : Nat → Cell} {plen i : Nat} {start idx : Cell}

/-- A pass that drew a free position weaves in the bytes of its chunk. -/
theorem Woven.put (woven : Woven cells cell (4 * i)) (keys : Keys) (more : 4 * i < plen)
    (free : ∀ p, fourFree (cells p).bucket idx = true) (index : ∀ j < 4 * i, start ≠ cell j)
    : Woven (fun p => chunkCells p plen keys i start idx (cells p))
        (cellsWith cell (4 * i) idx) (min plen (4 * (i + 1))) := by
  -- an index below the new bound is an old one or one of this chunk
  have oldOrNew {j : Nat} (hj : j < min plen (4 * (i + 1)))
      : j < 4 * i ∨ ∃ t < min 4 (plen - 4 * i), j = 4 * i + t := by
    rcases Nat.lt_or_ge j (4 * i) with old | new
    · exact Or.inl old
    · exact Or.inr ⟨j - 4 * i, by omega, by omega⟩
  have apart (p : Mem) {x : Cell} (used : (cells p).bucket x = true) (t : Nat)
      (ht : t < min 4 (plen - 4 * i))
      : x ≠ dataCell idx t := by
    rintro rfl
    rw [fourFree_iff.mp (free p) t (by omega)] at used
    cases used
  have oldApart {j t : Nat} (old : j < 4 * i) (ht : t < min 4 (plen - 4 * i))
      : cell j ≠ dataCell idx t :=
    apart (fun _ => 0) (woven.marked _ j old) t ht
  constructor
  · intro p q
    funext x
    rw [Bool.eq_iff_iff, chunkCells_bucket more, chunkCells_bucket more, woven.bucket p q]
  · intro p j hj
    rw [chunkCells_bucket more]
    rcases oldOrNew hj with old | ⟨t, ht, rfl⟩
    · rw [cellsWith_old cell idx old]
      exact Or.inl (woven.marked p j old)
    · exact Or.inr ⟨t, ht, cellsWith_new cell _ idx t⟩
  · intro j hj k hk eq
    rcases oldOrNew hj with old | ⟨t, ht, rfl⟩ <;> rcases oldOrNew hk with old' | ⟨t', ht', rfl⟩
    · rw [cellsWith_old cell idx old, cellsWith_old cell idx old'] at eq
      exact woven.distinct j old k old' eq
    · rw [cellsWith_old cell idx old, cellsWith_new] at eq
      exact absurd eq (oldApart old ht')
    · rw [cellsWith_old cell idx old', cellsWith_new] at eq
      exact absurd eq.symm (oldApart old' ht)
    · rw [cellsWith_new, cellsWith_new, dataCell_inj (by omega) (by omega)] at eq
      rw [eq]
  · intro p q j hj
    rcases oldOrNew hj with old | ⟨t, ht, rfl⟩
    · have other : cell j ≠ start := (index j old).symm
      rw [cellsWith_old cell idx old, chunkCells_of_ne more (fun t ht => oldApart old ht),
        chunkCells_of_ne more (fun t ht => oldApart old ht), if_neg other, if_neg other]
      exact woven.masked p q j old
    · rw [cellsWith_new, chunkCells_dataCell more ht, chunkCells_dataCell more ht]
      -- both bytes are under the same key
      rw [UInt8.xor_comm (q _), UInt8.xor_assoc, ← UInt8.xor_assoc (dataKey _ _),
        UInt8.xor_self, UInt8.zero_xor]
  · intro p q x away
    have notData (t : Nat) (ht : t < min 4 (plen - 4 * i)) : x ≠ dataCell idx t :=
      cellsWith_new cell (4 * i) idx t ▸ away (4 * i + t) (by omega)
    rw [chunkCells_of_ne more notData, chunkCells_of_ne more notData]
    split
    · rfl
    · refine woven.same p q x fun j old => ?_
      rw [← cellsWith_old cell idx old]
      exact away j (by omega)

end

/-- The passes left end alike for all plaintexts: all fail, or all weave in what is left of
the message. By induction on the index cells.
-/
theorem putChunks_woven (plen : Nat) (keys : Keys) (arr1 : List Cell) (i : Nat)
    (cells : Mem → Cells) (cell : Nat → Cell) (frd : List UInt8)
    (woven : Woven cells cell (min plen (4 * i)))
    (reserved : ∀ start ∈ arr1, ∀ p, (cells p).bucket start = true)
    (index : ∀ start ∈ arr1, ∀ j < min plen (4 * i), start ≠ cell j)
    (more : ∀ j < arr1.length, 4 * (i + j) < plen)
    : (∀ p, ∃ exit, putChunks p plen keys i arr1 (cells p) frd = .error exit)
      ∨ ∃ cells' cell' rest,
        (∀ p, putChunks p plen keys i arr1 (cells p) frd = .ok (cells' p, rest))
        ∧ Woven cells' cell' (min plen (4 * (i + arr1.length))) := by
  induction arr1 generalizing i cells cell frd with
  | nil => exact Or.inr ⟨cells, cell, frd, fun _ => rfl, woven⟩
  | cons start arr1 ih =>
      have first : 4 * i < plen := more 0 (by simp)
      have bound : min plen (4 * i) = 4 * i := by omega
      rw [bound] at woven index
      have sameDraw (p : Mem)
          : getDataIdx (cells p).bucket frd = getDataIdx (cells fun _ => 0).bucket frd := by
        rw [woven.bucket p fun _ => 0]
      cases drawn : getDataIdx (cells fun _ => 0).bucket frd with
      | error e =>
          refine Or.inl fun p => ⟨.returnFail, ?_⟩
          refine Draw.bind_error_iff.mpr (Or.inl (Draw.bind_error_iff.mpr (Or.inl ?_)))
          simp only [Draw.failAs, sameDraw, drawn]
      | ok result =>
          obtain ⟨idx, rest⟩ := result
          have draws (p : Mem) : getDataIdx (cells p).bucket frd = .ok (idx, rest) :=
            (sameDraw p).trans drawn
          have free (p : Mem) := getDataIdx_free (draws p)
          have one (p : Mem)
              : putChunk p plen keys i start (cells p) frd
                = .ok (chunkCells p plen keys i start idx (cells p), rest) :=
            putChunk_ok_iff.mpr ⟨idx, draws p, rfl⟩
          have next := woven.put keys first free (index start List.mem_cons_self)
          have kept (p : Mem) {x : Cell} (used : (cells p).bucket x = true)
              : (chunkCells p plen keys i start idx (cells p)).bucket x = true :=
            (chunkCells_bucket first x).mpr (Or.inl used)
          have later := ih (i + 1) _ _ rest next
            (fun start' member p => kept p (reserved start' (List.mem_cons_of_mem _ member) p))
            (fun start' member j hj => by
              have used := reserved start' (List.mem_cons_of_mem _ member) fun _ => 0
              rcases Nat.lt_or_ge j (4 * i) with old | new
              · rw [cellsWith_old cell idx old]
                exact index start' (List.mem_cons_of_mem _ member) j old
              · rw [cellsWith, if_neg (by omega)]
                rintro rfl
                rw [fourFree_iff.mp (free _) _ (by omega)] at used
                cases used)
            (fun j hj => by
              have := more (j + 1) (by simpa using hj)
              omega)
          rcases later with failed | ⟨cells', cell', rest', ran, whole⟩
          · refine Or.inl fun p => ?_
            obtain ⟨exit, stuck⟩ := failed p
            exact ⟨exit, Draw.bind_error_iff.mpr (Or.inr ⟨_, rest, one p, stuck⟩)⟩
          · refine Or.inr ⟨cells', cell', rest',
              fun p => Draw.bind_ok_iff.mpr ⟨_, rest, one p, ran p⟩, ?_⟩
            rw [List.length_cons, Nat.add_comm arr1.length 1, ← Nat.add_assoc]
            exact whole

/-- The bodies for all plaintexts of one length fail together or end woven. -/
theorem encBody_woven {plen : Nat} (short : plen ≤ maxPlainBytes) (now : Tm)
    (frd : List UInt8)
    : (∀ p, ∃ exit, encBody p plen now frd = .error exit)
      ∨ ∃ cells cell rest,
        (∀ p, encBody p plen now frd = .ok ((cells p).buffer, rest))
        ∧ Woven cells cell plen := by
  cases opened : openFrame plen now frd with
  | error exit =>
      exact Or.inl fun p => ⟨exit, Draw.bind_error_iff.mpr (Or.inl opened)⟩
  | ok result =>
      obtain ⟨frame, rest⟩ := result
      obtain ⟨_, _, _, laid⟩ := openFrame_laid short opened
      have loop := putChunks_woven plen frame.keys frame.arr1 0
        (fun _ => frame.cells) (fun _ => 0) rest
        (by simpa using Woven.start frame.cells)
        (fun start member _ => laid.reserved start member)
        (fun _ _ j hj => by omega)
        (fun j hj => by
          rw [laid.length_arr1] at hj
          simp only [idxAmt] at hj
          omega)
      have whole : min plen (4 * (0 + frame.arr1.length)) = plen := by
        rw [laid.length_arr1]
        simp only [idxAmt]
        omega
      rw [whole] at loop
      rcases loop with failed | ⟨cells, cell, rest', ran, woven⟩
      · refine Or.inl fun p => ?_
        obtain ⟨exit, stuck⟩ := failed p
        exact ⟨exit, Draw.bind_error_iff.mpr (Or.inr ⟨frame, rest, opened,
          Draw.bind_error_iff.mpr (Or.inl stuck)⟩)⟩
      · exact Or.inr ⟨cells, cell, rest', fun p => Draw.bind_ok_iff.mpr ⟨frame, rest, opened,
          Draw.bind_ok_iff.mpr ⟨cells p, rest', ran p, rfl⟩⟩, woven⟩

/-- For each stream and clock there is one set of data cells for all messages of a length,
one cell for each byte. Any two runs end alike, and their ciphertexts differ at most in
these cells, each by the difference of the bytes it holds.
-/
theorem clKlciphEnc_content (random : Option (List UInt8)) (now : Tm) (plen : Int)
    (positive : 1 ≤ plen) (short : plen ≤ 120)
    : ∃ cell : Fin plen.toNat → Cell,
        Function.Injective cell
        ∧ ∀ (p q out out' : Mem) (clen clen' : Int),
          let one := clKlciphEnc random now (some p) plen (some out) (some clen)
          let two := clKlciphEnc random now (some q) plen (some out') (some clen')
          one.ret = two.ret
          ∧ (one.ret = .succ
            → ∃ c d,
              one.cipher = some c
              ∧ two.cipher = some d
              ∧ (∀ j, c (cell j) ^^^ d (cell j) = p j ^^^ q j)
              ∧ ∀ x : Cell, x ∉ Set.range cell → c x = d x) := by
  have accepted : ¬(plen < 1 ∨ plen > maxPlainBytes) := by
    simp only [maxPlainBytes]
    omega
  -- where every run fails any cells do
  have anywhere : Function.Injective fun j : Fin plen.toNat => Fin.ofNat 256 j.val := by
    intro j k eq
    have values := congrArg Fin.val eq
    simp only [Fin.val_ofNat] at values
    have := j.isLt
    have := k.isLt
    exact Fin.ext (by omega)
  cases random with
  | none =>
      refine ⟨_, anywhere, fun p q out out' clen clen' => ?_⟩
      simp only [clKlciphEnc, if_neg accepted]
      exact ⟨trivial, fun failed => by cases failed⟩
  | some frd =>
      have few : plen.toNat ≤ maxPlainBytes := by
        simp only [maxPlainBytes]
        omega
      rcases encBody_woven few now frd with failed | ⟨cells, cell, rest, ran, woven⟩
      · refine ⟨_, anywhere, fun p q out out' clen clen' => ?_⟩
        have fails (p out : Mem) (clen : Int)
            : (clKlciphEnc (some frd) now (some p) plen (some out) (some clen)).ret = .fail := by
          obtain ⟨exit, stuck⟩ := failed p
          cases exit <;> simp only [clKlciphEnc, if_neg accepted, stuck]
        dsimp only
        rw [fails, fails]
        exact ⟨rfl, fun failed => by cases failed⟩
      · refine ⟨fun j => cell j, fun j k eq => ?_, fun p q out out' clen clen' => ?_⟩
        · exact Fin.ext (woven.distinct j j.isLt k k.isLt eq)
        · simp only [clKlciphEnc, if_neg accepted, ran]
          refine ⟨trivial, fun _ => ⟨_, _, rfl, rfl, fun j => ?_, fun x outside => ?_⟩⟩
          · rw [memcpy_buffer, memcpy_buffer]
            exact woven.masked p q j j.isLt
          · rw [memcpy_buffer, memcpy_buffer]
            exact woven.same p q x fun j hj eq => outside ⟨⟨j, hj⟩, eq.symm⟩

/-- Two messages of two bytes, on the same bytes and clock. -/
theorem clKlciphEnc_content_twoBytes
    : ∃ cell : Fin 2 → Cell,
        Function.Injective cell
        ∧ ∃ c d,
          (clKlciphEnc (some (0 :: 0 :: (List.replicate 256 0 ++ [128]))) default
            (some fun _ => 7) 2 (some fun _ => 0) (some 0)).cipher = some c
          ∧ (clKlciphEnc (some (0 :: 0 :: (List.replicate 256 0 ++ [128]))) default
            (some fun _ => 9) 2 (some fun _ => 0) (some 0)).cipher = some d
          ∧ ∀ j, c (cell j) ^^^ d (cell j) = 14 := by
  obtain ⟨cell, distinct, runs⟩ := clKlciphEnc_content
    (some (0 :: 0 :: (List.replicate 256 0 ++ [128]))) default 2 (by decide) (by decide)
  obtain ⟨_, succeeded⟩ := runs (fun _ => 7) (fun _ => 9) (fun _ => 0) (fun _ => 0) 0 0
  obtain ⟨c, d, one, two, masked, _⟩ := succeeded (by decide +kernel)
  exact ⟨cell, distinct, c, d, one, two, masked⟩

end Libccll.Klciph
