import Mathlib
import Recompose.Options
import Recompose.Proofs.Identity

namespace Recompose

namespace Digest.Sha256

def hashBytes (message : List UInt8) : List UInt8 :=
  (hash message).flatMap fun w ↦ bigEndian 4 w.toNat

def ofBytes (bytes : List UInt8) : Nat :=
  bytes.foldl (fun n b ↦ 256 * n + b.toNat) 0

theorem length_round (state : List UInt32) (kw : UInt32 × UInt32) :
    (round state kw).length = state.length := by
  unfold round
  split
  · rfl
  · rfl

theorem length_compress (state block : List UInt32) : (compress state block).length = state.length := by
  have hrounds (kws : List (UInt32 × UInt32)) (st : List UInt32) :
      (kws.foldl round st).length = st.length := by
    induction kws generalizing st with
    | nil => rfl
    | cons kw kws ih => rw [List.foldl_cons, ih, length_round]
  rw [compress, List.length_zipWith, hrounds, Nat.min_self]

theorem length_absorb (n : Nat) (state ws : List UInt32) : (absorb n state ws).length = state.length := by
  induction n generalizing state ws with
  | zero => rfl
  | succ n ih => rw [absorb, ih, length_compress]

theorem length_hash (message : List UInt8) : (hash message).length = 8 :=
  length_absorb _ _ _

theorem ofBytes_append_bigEndian (bytes : List UInt8) (w : UInt32) :
    ofBytes (bytes ++ bigEndian 4 w.toNat) = 2 ^ 32 * ofBytes bytes + w.toNat := by
  have hw := w.toNat_lt
  have hbytes : bigEndian 4 w.toNat = [UInt8.ofNat (w.toNat >>> 24), UInt8.ofNat (w.toNat >>> 16),
      UInt8.ofNat (w.toNat >>> 8), UInt8.ofNat (w.toNat >>> 0)] := rfl
  rw [hbytes, ofBytes, List.foldl_append]
  simp only [List.foldl_cons, List.foldl_nil, UInt8.toNat_ofNat', Nat.shiftRight_eq_div_pow]
  rw [← ofBytes]
  omega

end Digest.Sha256

namespace Identity

open Digest.Sha256 (hashBytes ofBytes bigEndian length_hash ofBytes_append_bigEndian)

theorem toNat_join (a b : UInt32) :
    ((a.toUInt64 <<< 32) ||| b.toUInt64).toNat = 2 ^ 32 * a.toNat + b.toNat := by
  have ha := a.toNat_lt
  have hshift : (a.toUInt64 <<< 32).toNat = a.toNat <<< 32 := by
    rw [UInt64.toNat_shiftLeft, UInt32.toNat_toUInt64]
    refine Nat.mod_eq_of_lt ?_
    rw [Nat.shiftLeft_eq]
    change a.toNat * 2 ^ 32 < 2 ^ 64
    omega
  rw [UInt64.toNat_or, hshift, UInt32.toNat_toUInt64, ← Nat.shiftLeft_add_eq_or_of_lt b.toNat_lt,
    Nat.shiftLeft_eq, Nat.mul_comm]

/-- The digest of a text is spelled by the first eight bytes of its hash. -/
theorem toNat_digest (text : String) :
    (digest text).toNat = ofBytes ((hashBytes text.toUTF8.toList).take 8) := by
  have hlength := length_hash text.toUTF8.toList
  rw [digest, hashBytes]
  cases hhash : Digest.Sha256.hash text.toUTF8.toList with
  | nil =>
    rw [hhash] at hlength
    exact absurd hlength (by decide)
  | cons a ws =>
    cases ws with
    | nil =>
      rw [hhash] at hlength
      simp at hlength
    | cons b ws =>
      have htake : ((a :: b :: ws).flatMap fun w ↦ bigEndian 4 w.toNat).take 8 =
          [] ++ bigEndian 4 a.toNat ++ bigEndian 4 b.toNat := rfl
      rw [htake, ofBytes_append_bigEndian, ofBytes_append_bigEndian]
      exact (toNat_join a b).trans (by simp [ofBytes])

def shiftLeft? (x : UInt64) (n : Nat) : Option UInt64 :=
  if n < 64 then some (x <<< UInt64.ofNat n) else none

def sub? (x y : UInt64) : Option UInt64 :=
  if y ≤ x then some (x - y) else none

/-- The mask of a width, by arithmetic that never wraps around. -/
def mask? (width : Nat) : Option UInt64 :=
  if 64 ≤ width then some (-1) else (shiftLeft? 1 width).bind (sub? · 1)

section Mask

variable {w : Nat}

theorem toNat_one_shiftLeft (h : w < 64) : ((1 : UInt64) <<< UInt64.ofNat w).toNat = 2 ^ w := by
  have hpow : 2 ^ w < 2 ^ 64 := Nat.pow_lt_pow_right (by decide) h
  have hamount : (UInt64.ofNat w).toNat = w := UInt64.toNat_ofNat_of_lt' (Nat.lt_trans h (by decide))
  rw [UInt64.toNat_shiftLeft, hamount, Nat.mod_eq_of_lt h, UInt64.toNat_one, Nat.one_shiftLeft,
    Nat.mod_eq_of_lt hpow]

theorem one_le_one_shiftLeft (h : w < 64) : (1 : UInt64) ≤ 1 <<< UInt64.ofNat w := by
  rw [UInt64.le_iff_toNat_le, toNat_one_shiftLeft h]
  exact Nat.one_le_two_pow

theorem mask?_eq (w : Nat) : mask? w = some (ofWidth w).mask := by
  rw [mask?, ofWidth]
  split
  · rfl
  · next h =>
    have hw : w < 64 := Nat.lt_of_not_le h
    rw [shiftLeft?, if_pos hw, Option.bind_some, sub?, if_pos (one_le_one_shiftLeft hw)]

theorem toNat_mask (w : Nat) : (ofWidth w).mask.toNat = 2 ^ min w 64 - 1 := by
  rw [ofWidth]
  split
  · next h =>
    rw [Nat.min_eq_right h]
    rfl
  · next h =>
    have hw : w < 64 := Nat.lt_of_not_le h
    rw [UInt64.toNat_sub_of_le _ _ (one_le_one_shiftLeft hw), toNat_one_shiftLeft hw,
      Nat.min_eq_left (Nat.le_of_lt hw), UInt64.toNat_one]

/-- The width is what the leading zeros of the mask leave of the word. -/
theorem width_eq_sub_clz (i : Identity) : i.width = 64 - i.mask.toBitVec.clz.toNat := by
  rw [width]
  split
  · next h =>
    rw [h]
    rfl
  · next h =>
    have hne : i.mask.toBitVec ≠ 0#64 := fun hzero ↦ h (UInt64.toBitVec_inj.1 hzero)
    have hlow : 2 ^ (64 - 1 - i.mask.toBitVec.clz.toNat) ≤ i.mask.toNat :=
      BitVec.two_pow_sub_clz_le_toNat_of_ne_zero (by decide) hne
    have hhigh : i.mask.toNat < 2 ^ (64 - i.mask.toBitVec.clz.toNat) := BitVec.toNat_lt_two_pow_sub_clz
    have hlt : i.mask.toBitVec.clz.toNat < 64 := BitVec.lt_def.1 (BitVec.clz_lt_iff_ne_zero.2 hne)
    have hpos : i.mask.toNat ≠ 0 := Nat.ne_of_gt (Nat.lt_of_lt_of_le (Nat.two_pow_pos _) hlow)
    have habove := (Nat.log2_lt hpos).2 hhigh
    have hbelow := (Nat.le_log2 hpos).2 hlow
    omega

theorem width_ofWidth (w : Nat) : (ofWidth w).width = min w 64 := by
  have hmask := toNat_mask w
  have hpow := Nat.one_le_two_pow (n := min w 64)
  cases hbits : min w 64 with
  | zero =>
    rw [hbits] at hmask
    have hzero : (ofWidth w).mask = 0 := UInt64.toNat_inj.1 hmask
    rw [width, if_pos hzero]
  | succ n =>
    rw [hbits] at hmask
    have hpow : 1 ≤ 2 ^ n := Nat.one_le_two_pow
    have hdouble : 2 ^ (n + 1) = 2 * 2 ^ n := Nat.pow_succ'
    have hne : (ofWidth w).mask ≠ 0 := by
      intro hzero
      rw [hzero, UInt64.toNat_zero] at hmask
      omega
    have hpos : 2 ^ (n + 1) - 1 ≠ 0 := by omega
    have habove : (2 ^ (n + 1) - 1).log2 < n + 1 := (Nat.log2_lt hpos).2 (by omega)
    have hbelow : n ≤ (2 ^ (n + 1) - 1).log2 := (Nat.le_log2 hpos).2 (by omega)
    rw [width, if_neg hne, hmask]
    omega

theorem toNat_and_mask (x : UInt64) (w : Nat) :
    (x &&& (ofWidth w).mask).toNat = x.toNat % 2 ^ min w 64 := by
  rw [UInt64.toNat_and, toNat_mask, Nat.and_two_pow_sub_one_eq_mod]

end Mask

section Offset

variable (name : String) (part : Part)

theorem toNat_offset (w : Nat) :
    ((ofWidth w).offset name part).toNat =
      (digest (path name part.component)).toNat % 2 ^ min w 64 := by
  rw [offset_eq, toNat_and_mask]

theorem toNat_offset_lt (w : Nat) : ((ofWidth w).offset name part).toNat < 2 ^ min w 64 := by
  rw [toNat_offset]
  exact Nat.mod_lt _ (Nat.two_pow_pos _)

theorem toNat_offset_of_le {w w' : Nat} (h : min w 64 ≤ min w' 64) :
    ((ofWidth w).offset name part).toNat = ((ofWidth w').offset name part).toNat % 2 ^ min w 64 := by
  rw [toNat_offset, toNat_offset, Nat.mod_mod_of_dvd _ (Nat.pow_dvd_pow 2 h)]

end Offset

theorem toNat?_literal (offset : UInt64) : (literal offset).toNat? = some offset.toNat :=
  Nat.toNat?_repr offset.toNat

/-- An offset is the digest cut down to its width, and exact as a number of the language if the width is
valid. -/
theorem ofWidth_truncates (w : Nat) :
    mask? w = some (ofWidth w).mask ∧ (ofWidth w).width = min w 64 ∧
    (ofWidth w).width = 64 - (ofWidth w).mask.toBitVec.clz.toNat ∧
    ∀ (name : String) (part : Part),
      ((ofWidth w).offset name part).toNat < 2 ^ min w 64 ∧
      ((ofWidth w).offset name part).toNat =
        ofBytes ((hashBytes (path name part.component).toUTF8.toList).take 8) % 2 ^ min w 64 ∧
      ((ofWidth w).offset name part).toNat =
        ((ofWidth 64).offset name part).toNat % 2 ^ min w 64 ∧
      (∀ w', w ≤ w' → ((ofWidth w).offset name part).toNat =
        ((ofWidth w').offset name part).toNat % 2 ^ min w 64) ∧
      (∀ o : Options, o.validate = .ok () → o.hashWidth = w →
        ((ofWidth w).offset name part).toNat < 2 ^ 53) ∧
      (literal ((ofWidth w).offset name part)).toNat? = some ((ofWidth w).offset name part).toNat := by
  refine ⟨mask?_eq w, width_ofWidth w, width_eq_sub_clz _, fun name part ↦
    ⟨toNat_offset_lt name part w, ?_, toNat_offset_of_le name part (by omega), fun w' h ↦
      toNat_offset_of_le name part (by omega), fun o hvalid hwidth ↦ ?_, toNat?_literal _⟩⟩
  · rw [toNat_offset, toNat_digest]
  · have hwidest : o.hashWidth ≤ 53 := (Options.validate_eq_ok_iff.1 hvalid).2
    have hbits : min w 64 ≤ 53 := by omega
    exact Nat.lt_of_lt_of_le (toNat_offset_lt name part w) (Nat.pow_le_pow_right (by decide) hbits)

theorem ofWidth_truncates_twenty :
    (20 ≤ 32 ∧ ({ hashWidth := 20 } : Options).validate = .ok ()) ∧
      ((ofWidth 20).offset "a.ts::f" (.call 3)).toNat =
        ((ofWidth 32).offset "a.ts::f" (.call 3)).toNat % 2 ^ 20 ∧
      ((ofWidth 20).offset "a.ts::f" (.call 3)).toNat < 2 ^ 53 := by
  have hvalid : ({ hashWidth := 20 } : Options).validate = .ok () := rfl
  obtain ⟨-, -, -, hoffset⟩ := ofWidth_truncates 20
  obtain ⟨-, -, -, hwider, hexact, -⟩ := hoffset "a.ts::f" (.call 3)
  exact ⟨⟨by decide, hvalid⟩, hwider 32 (by decide), hexact _ hvalid rfl⟩

end Identity

end Recompose
