import LeadSheet.Packed.Code

/-!
Numbers in packed data: seven bits in a byte, the lowest first; all bytes but the last have the
high bit set. A negative number stands behind a byte of its own.
-/
namespace LeadSheet.Packed

/-- A value read from bytes, or why there is none; and the bytes left over in either case. -/
abbrev Read (α : Type) := Except PackFault α × Bytes

/-- The bytes of a number. -/
def writeNat (n : Nat) : Bytes :=
  if n < 128 then [UInt8.ofNat n] else UInt8.ofNat (n % 128 + 128) :: writeNat (n / 128)
termination_by n

/-- The bytes of a number that must not be negative. -/
def writeUnsigned (n : Int) : Except PackFault Bytes :=
  if n < 0 then .error (.negativeNumber (toString n)) else .ok (writeNat n.toNat)

/-- The bytes of a number that may be negative. A number whose first byte would be taken for the
sign has none. -/
def writeSigned (n : Int) : Except PackFault Bytes :=
  if n < 0 then .ok (negativeCode :: writeNat n.natAbs)
  else
    let bytes := writeNat n.toNat
    if bytes.head? = some negativeCode then .error .numberReadsAsSign else .ok bytes

/-- Reads a number. -/
def readNat : Bytes → Read Nat
  | [] => (.error .endOfData, [])
  | b :: rest =>
    if b < 0x80 then (.ok b.toNat, rest)
    else
      match readNat rest with
      | (.ok n, rest) => (.ok (b.toNat - 128 + 128 * n), rest)
      | (.error e, rest) => (.error e, rest)

/-- Reads a number that may be negative. -/
def readSigned (bytes : Bytes) : Read Int :=
  match bytes with
  | b :: rest =>
    if b = negativeCode then
      match readNat rest with
      | (.ok n, rest) => (.ok (-n), rest)
      | (.error e, rest) => (.error e, rest)
    else
      match readNat bytes with
      | (.ok n, rest) => (.ok n, rest)
      | (.error e, rest) => (.error e, rest)
  | [] => (.error .endOfData, [])

theorem length_readNat_le (bytes : Bytes) : (readNat bytes).2.length ≤ bytes.length := by
  induction bytes with
  | nil => simp [readNat]
  | cons b rest ih =>
    unfold readNat
    split
    · simp
    · split <;> simp_all <;> omega

theorem length_readSigned_le (bytes : Bytes) : (readSigned bytes).2.length ≤ bytes.length := by
  unfold readSigned
  split
  · next b rest =>
    have short := length_readNat_le rest
    have whole := length_readNat_le (b :: rest)
    split
    · split <;> simp_all <;> omega
    · split <;> simp_all
  · simp

end LeadSheet.Packed
