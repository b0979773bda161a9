import Simian.Lib.Sha256

/-! # Hashing of scanned files

`_sha256` of `services/file_scanner.py` over what a file holds. The limit is compared after a whole
chunk has been hashed, so what is hashed ends at a chunk (`sha256_eq`) and is the beginning of the
file up to `max_bytes` only where the file is no longer or the limit falls on the end of a chunk. -/

namespace Simian.FileScanner
open Chunks

variable {σ δ : Type} {D : Digest UInt8 σ δ} {b : List UInt8} {max_bytes total : Nat} {h : σ}

/-- `while True`, with what is left of the file. -/
def hashLoop (D : Digest UInt8 σ δ) (max_bytes total : Nat) (h : σ) (rest : List UInt8) : σ :=
  let chunk := rest.take (1024 * 1024)
  if _h : chunk.length = 0 then h
  else
    let total := total + chunk.length
    let h := D.update h chunk
    if max_bytes ≤ total then h
    else hashLoop D max_bytes total h (rest.drop (1024 * 1024))
termination_by rest.length
decreasing_by
  rw [List.length_take] at _h
  rw [List.length_drop]
  omega

def _sha256 (D : Digest UInt8 σ δ) (b : List UInt8) (max_bytes : Nat := 20000000) : δ :=
  D.result (hashLoop D max_bytes 0 D.start b)

theorem hashLoop_eq {rest : List UInt8} : hashLoop D max_bytes total h rest =
    (readTo (1024 * 1024) max_bytes total rest).foldl D.update h := by
  fun_induction hashLoop D max_bytes total h rest with
  | case1 total h rest chunk hempty =>
    rw [readTo, dif_pos hempty]
    rfl
  | case2 total h rest chunk hempty total' h' hreached =>
    rw [readTo, dif_neg hempty, if_pos hreached]
    rfl
  | case3 total h rest chunk hempty total' h' hmore ih =>
    rw [readTo, dif_neg hempty, if_neg hmore, ih]
    rfl

/-- Whole chunks are hashed, up to the one that reaches `max_bytes`. -/
theorem sha256_eq : _sha256 D b max_bytes = D.of (b.take (reach (1024 * 1024) max_bytes)) := by
  rw [_sha256, hashLoop_eq, D.foldl_update, flatten_readTo (by decide), Nat.sub_zero, Digest.of]

/-- The beginning of the file up to `max_bytes` is what is hashed, whatever the hash. -/
theorem sha256_of_first_iff (b : List UInt8) (max_bytes : Nat) :
    (∀ (σ δ : Type) (D : Digest UInt8 σ δ), _sha256 D b max_bytes = D.of (b.take max_bytes)) ↔
      b.length ≤ max_bytes ∨ 0 < max_bytes ∧ 1024 * 1024 ∣ max_bytes := by
  rw [← take_reach_iff (by decide)]
  constructor
  · intro hall
    have hstream := hall _ _ Digest.stream
    rwa [sha256_eq, Digest.of_stream, Digest.of_stream] at hstream
  · intro htake σ δ D
    rw [sha256_eq, htake]

/-- Two bytes with a limit of one. -/
theorem sha256_of_more :
    _sha256 Sha256.sha256 [0x61, 0x62] 1 = Sha256.sha256.of [0x61, 0x62] ∧
      _sha256 Sha256.sha256 [0x61, 0x62] 1 ≠ Sha256.sha256.of ([0x61, 0x62].take 1) := by
  have heq : _sha256 Sha256.sha256 [0x61, 0x62] 1 = Sha256.sha256.of [0x61, 0x62] := by
    rw [sha256_eq, List.take_of_length_le (by decide)]
  refine ⟨heq, ?_⟩
  rw [heq]
  decide +kernel

end Simian.FileScanner
