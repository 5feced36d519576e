import ContractLedger.Path
import Mathlib.Algebra.Ring.Nat
import Mathlib.Data.List.Basic

/-!
Nibble paths of keys. A key is recovered from its nibbles, the hex-prefix form is recovered from
its bytes, and two paths split into what they share and two rests that differ at once.
-/

namespace ContractLedger.Path

def Nibbles (path : Path) : Prop :=
  ∀ nibble ∈ path, nibble.toNat < 16

theorem Nibbles.nil : Nibbles [] := by
  intro nibble member
  cases member

theorem nibbles_cons {nibble : UInt8} {path : Path} :
    Nibbles (nibble :: path) ↔ nibble.toNat < 16 ∧ Nibbles path := by
  simp [Nibbles]

theorem nibbles_append {first second : Path} :
    Nibbles (first ++ second) ↔ Nibbles first ∧ Nibbles second := by
  simp [Nibbles, or_imp, forall_and]

theorem toNat_high (byte : UInt8) : (byte >>> 4).toNat = byte.toNat / 16 := by
  simp [UInt8.toNat_shiftRight, Nat.shiftRight_eq_div_pow]

theorem toNat_low (byte : UInt8) : (byte &&& 0x0f).toNat = byte.toNat % 16 := by
  simpa using Nat.and_two_pow_sub_one_eq_mod byte.toNat 4

theorem toNat_packPair {high low : UInt8} (highBound : high.toNat < 16)
    (lowBound : low.toNat < 16) : (packPair high low).toNat = 16 * high.toNat + low.toNat := by
  have shifted : (high <<< 4).toNat = high.toNat <<< 4 := by
    simp [UInt8.toNat_shiftLeft, Nat.shiftLeft_eq]
    omega
  rw [packPair, UInt8.toNat_or, shifted, ← Nat.shiftLeft_add_eq_or_of_lt lowBound, Nat.shiftLeft_eq]
  omega

theorem high_packPair {high low : UInt8} (highBound : high.toNat < 16)
    (lowBound : low.toNat < 16) : packPair high low >>> 4 = high := by
  apply UInt8.toNat_inj.mp
  rw [toNat_high, toNat_packPair highBound lowBound]
  omega

theorem low_packPair {high low : UInt8} (highBound : high.toNat < 16)
    (lowBound : low.toNat < 16) : packPair high low &&& 0x0f = low := by
  apply UInt8.toNat_inj.mp
  rw [toNat_low, toNat_packPair highBound lowBound]
  omega

theorem packPair_halves (byte : UInt8) : packPair (byte >>> 4) (byte &&& 0x0f) = byte := by
  have high := toNat_high byte
  have low := toNat_low byte
  have bound := byte.toNat_lt
  apply UInt8.toNat_inj.mp
  rw [toNat_packPair (by omega) (by omega), high, low]
  omega

theorem ofBytes_cons (byte : UInt8) (key : Bytes) :
    ofBytes (byte :: key) = (byte >>> 4) :: (byte &&& 0x0f) :: ofBytes key := rfl

theorem ofBytes_nibbles (key : Bytes) : Nibbles (ofBytes key) := by
  induction key with
  | nil => exact Nibbles.nil
  | cons byte key ih =>
    have bound := byte.toNat_lt
    rw [ofBytes_cons, nibbles_cons, nibbles_cons, toNat_high, toNat_low]
    exact ⟨by omega, by omega, ih⟩

theorem length_ofBytes (key : Bytes) : (ofBytes key).length = 2 * key.length := by
  induction key with
  | nil => rfl
  | cons byte key ih =>
    simp only [ofBytes_cons, List.length_cons, ih]
    omega

theorem toBytes?_ofBytes (key : Bytes) : toBytes? (ofBytes key) = some key := by
  induction key with
  | nil => rfl
  | cons byte key ih =>
    rw [ofBytes_cons, toBytes?, ih, Option.map_some, packPair_halves]

theorem ofBytes_injective {first second : Bytes} (same : ofBytes first = ofBytes second) :
    first = second := by
  have keys := congrArg toBytes? same
  rw [toBytes?_ofBytes, toBytes?_ofBytes] at keys
  exact Option.some.inj keys

/-- Nibbles come in the order of the bytes that they are halves of. -/
theorem lt_of_ofBytes_lt {first second : Bytes} (below : ofBytes first < ofBytes second) :
    first < second := by
  induction first generalizing second with
  | nil =>
    cases second with
    | nil => exact absurd below (List.not_lt_nil _)
    | cons byte rest => exact List.nil_lt_cons byte rest
  | cons byte first ih =>
    cases second with
    | nil => exact absurd below (List.not_lt_nil _)
    | cons other second =>
      have high := toNat_high byte
      have low := toNat_low byte
      have highOther := toNat_high other
      have lowOther := toNat_low other
      simp only [ofBytes_cons, List.cons_lt_cons_iff, UInt8.lt_iff_toNat_lt] at below ⊢
      rcases below with less | ⟨sameHigh, less | ⟨sameLow, rest⟩⟩
      · exact .inl (by omega)
      · have highs := congrArg UInt8.toNat sameHigh
        exact .inl (by omega)
      · have highs := congrArg UInt8.toNat sameHigh
        have lows := congrArg UInt8.toNat sameLow
        exact .inr ⟨UInt8.toNat_inj.mp (by omega), ih rest⟩

theorem ofBytes_packTail {path : Path} (nibbles : path.Nibbles)
    (even : path.length % 2 = 0) : ofBytes (packTail path) = path := by
  match path with
  | [] => rfl
  | [nibble] => simp at even
  | high :: low :: rest =>
    obtain ⟨highBound, lowBound, restNibbles⟩ : high.toNat < 16 ∧ low.toNat < 16 ∧ Nibbles rest := by
      simpa only [nibbles_cons] using nibbles
    have restEven : rest.length % 2 = 0 := by
      simp only [List.length_cons] at even
      omega
    rw [packTail, ofBytes_cons, high_packPair highBound lowBound, low_packPair highBound lowBound,
      ofBytes_packTail restNibbles restEven]

theorem length_packTail (path : Path) : (packTail path).length = path.length / 2 := by
  match path with
  | [] => rfl
  | [nibble] => simp [packTail]
  | high :: low :: rest =>
    have tail := length_packTail rest
    simp only [packTail, List.length_cons, tail]
    omega

theorem length_pack (path : Path) (leaf : Bool) :
    (path.pack leaf).length = path.length / 2 + 1 := by
  unfold pack
  split
  · next odd =>
    cases path with
    | nil => simp at odd
    | cons first rest =>
      simp only [List.length_cons, length_packTail] at odd ⊢
      omega
  · simp [length_packTail]

private theorem flags_bound (leaf odd : Bool) : (flags leaf odd).toNat < 16 := by
  cases leaf <;> cases odd <;> decide

/-- The packed form of a path and a flag is read back as that path and flag. -/
theorem unpack?_pack {path : Path} (nibbles : path.Nibbles) (leaf : Bool) :
    unpack? (path.pack leaf) = some (path, leaf) := by
  unfold pack
  split
  · next odd =>
    cases path with
    | nil => simp at odd
    | cons first rest =>
      obtain ⟨bound, restNibbles⟩ := nibbles_cons.mp nibbles
      have even : rest.length % 2 = 0 := by
        simp only [List.length_cons] at odd
        omega
      rw [unpack?, high_packPair (flags_bound leaf true) bound,
        low_packPair (flags_bound leaf true) bound, ofBytes_packTail restNibbles even]
      cases leaf <;> rfl
  · next notOdd =>
    have even : path.length % 2 = 0 := by omega
    rw [unpack?, high_packPair (flags_bound leaf false) (by decide),
      low_packPair (flags_bound leaf false) (by decide), ofBytes_packTail nibbles even]
    cases leaf <;> rfl

/-- Whatever bytes are read as a packed path, its elements are half-bytes and fill them. -/
theorem unpack?_eq_some {packed : Bytes} {path : Path} {leaf : Bool}
    (unpacked : unpack? packed = some (path, leaf)) :
    path.Nibbles ∧ path.length / 2 + 1 = packed.length := by
  cases packed with
  | nil => cases unpacked
  | cons first rest =>
    have length := length_ofBytes rest
    simp only [unpack?] at unpacked
    split at unpacked
    · cases unpacked
    split at unpacked
    · cases unpacked
      refine ⟨nibbles_cons.mpr ⟨?_, ofBytes_nibbles rest⟩, ?_⟩
      · rw [toNat_low]
        omega
      · simp only [List.length_cons]
        omega
    split at unpacked
    · cases unpacked
    · cases unpacked
      refine ⟨ofBytes_nibbles rest, ?_⟩
      rw [List.length_cons]
      omega

theorem after?_eq_some {lead path rest : Path} :
    lead.after? path = some rest ↔ path = lead ++ rest := by
  rw [after?, List.isPrefixOf?_eq_some_iff_append_eq, eq_comm]

theorem after?_append (lead rest : Path) : lead.after? (lead ++ rest) = some rest :=
  after?_eq_some.mpr rfl

/-- Two paths part ways at once: at most one is empty, and they start differently. -/
def Diverge (first second : Path) : Prop :=
  ∀ nibble restFirst restSecond, first = nibble :: restFirst → second ≠ nibble :: restSecond

/-- Two paths are what they share, followed by rests that part ways at once. -/
theorem shared_split (first second : Path) :
    ∃ common restFirst restSecond, first.shared second = common.length ∧
      first = common ++ restFirst ∧ second = common ++ restSecond ∧
      Diverge restFirst restSecond := by
  induction first generalizing second with
  | nil =>
    refine ⟨[], [], second, by simp [shared], rfl, rfl, ?_⟩
    intro nibble restFirst restSecond impossible
    cases impossible
  | cons nibble first ih =>
    cases second with
    | nil =>
      refine ⟨[], nibble :: first, [], rfl, rfl, rfl, ?_⟩
      intro nibble restFirst restSecond _ impossible
      cases impossible
    | cons other second =>
      by_cases same : nibble = other
      · subst other
        obtain ⟨common, restFirst, restSecond, length, firstIs, secondIs, apart⟩ := ih second
        refine ⟨nibble :: common, restFirst, restSecond, ?_, ?_, ?_, apart⟩
        · simp [shared, length]
        · rw [firstIs, List.cons_append]
        · rw [secondIs, List.cons_append]
      · refine ⟨[], nibble :: first, other :: second, ?_, rfl, rfl, ?_⟩
        · simp [shared, same]
        · intro shared restFirst restSecond firstIs secondIs
          exact same ((List.cons.inj firstIs).1.trans (List.cons.inj secondIs).1.symm)

end ContractLedger.Path
