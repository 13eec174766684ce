import Brdns.Proofs.Layout

/-! Records and the length they declare. Only strings and skipped content are read up to the
declared end; the other types end where their content does, whatever length was declared. -/

namespace Brdns

open Lib DnsName CursorM BytePacketBuffer Layout

namespace Layout

/-- Just after the declared length of the record at `pos`. -/
def declaredEnd (msg : Bytes) (pos : ℕ) : ℕ := rdataStart msg pos + rdlength msg pos

/-- The content of the record at `pos` has the declared length, as its type has it: four or
sixteen octets, a name, a word and a name, or whole strings. -/
def FillsDeclared (msg : Bytes) (pos : ℕ) : Prop :=
  match recordType msg pos with
  | .A => rdlength msg pos = 4
  | .AAAA => rdlength msg pos = 16
  | .CNAME | .NS => nameEnd msg (rdataStart msg pos) = declaredEnd msg pos
  | .MX => nameEnd msg (rdataStart msg pos + 2) = declaredEnd msg pos
  | .TXT => stringsEnd msg (declaredEnd msg pos) (rdataStart msg pos) = declaredEnd msg pos
  | .UNKNOWN _ => True

theorem recordEnd_eq_declaredEnd_iff (msg : Bytes) (pos : ℕ) :
    recordEnd msg pos = declaredEnd msg pos ↔ FillsDeclared msg pos := by
  rw [recordEnd, readEnd, skipped, FillsDeclared, declaredEnd]
  cases recordType msg pos with
  | A | AAAA =>
    simp only [contentEnd, skippedBy, Nat.add_zero]
    omega
  | CNAME | NS | MX | TXT => rfl
  | UNKNOWN num => exact iff_of_true rfl trivial

end Layout

section

variable [Text.UnicodeTables]

/-- A record that is read ends at its declared end exactly when its content fills the declared
length; nothing else is checked. -/
theorem DnsRecord.declared_iff {msg : Bytes} {pos : ℕ} {r : DnsRecord} {c : BytePacketBuffer}
    (h : DnsRecord.read ⟨msg, pos⟩ = .ok r c) :
    c.pos = rdataStart msg pos + rdlength msg pos ↔ FillsDeclared msg pos := by
  rw [(DnsRecord.read_at h).cursor]
  exact recordEnd_eq_declaredEnd_iff msg pos

end

section

attribute [local instance] Text.asciiTables

def twoStrings : Bytes := [0, 0, 16, 0, 1, 0, 0, 0, 60, 0, 5, 1, 97, 2, 98, 99]

theorem DnsRecord.declared_iff_strings :
    16 = rdataStart twoStrings 0 + rdlength twoStrings 0 ↔ FillsDeclared twoStrings 0 := by
  have hread : DnsRecord.read ⟨twoStrings, 0⟩ =
      .ok (.TXT [] ['a', 'b', 'c'] 60) ⟨twoStrings, 16⟩ := by decide +kernel
  exact DnsRecord.declared_iff hread

/-- An A record of declared length 0, and what follows it. -/
def emptyAddress : Bytes := [0, 0, 1, 0, 1, 0, 0, 0, 60, 0, 0, 10, 0, 0, 1]

/-- The four octets after the record are taken for its address. -/
theorem DnsRecord.declared_length_ignored :
    DnsRecord.read ⟨emptyAddress, 0⟩ =
        .ok (.A [] ⟨[10, 0, 0, 1], rfl⟩ 60) ⟨emptyAddress, 15⟩ ∧
      rdataStart emptyAddress 0 + rdlength emptyAddress 0 = 11 := by
  constructor <;> decide +kernel

end

end Brdns
