import Mathlib.Data.List.GetD
import NovusHeadless.Networking.ByteBuffer
import NovusHeadless.Cryptography.SHA1

/-!
# The packed messages of the login (`Connection/NovusConnection.h`)

The handlers cast the read pointer to a packed struct, so a message is decoded from the memory at the
read pointer, field by field at fixed offsets (`SAuthLogonChallengeData.ofBytes`,
`SAuthLogonProofData.ofBytes`).  Decoding looks at the first 119, respectively the first 22 bytes only
(`challengeData_append`, `proofData_append`).

`Reply` is a complete reply of the server: a challenge or a proof, each as success or as failure, with
the length and the command byte of its kind.
-/

namespace NovusHeadless

open Lib

inductive NovusCommand where
  | challenge
  | proof
  deriving DecidableEq, Repr

/-- `NOVUS_CHALLENGE = 0x00`, `NOVUS_PROOF = 0x01`. -/
def NovusCommand.code : NovusCommand → UInt8
  | .challenge => 0x00
  | .proof => 0x01

lemma NovusCommand.code_inj {a b : NovusCommand} (h : a.code = b.code) : a = b := by
  cases a <;> cases b <;> first | rfl | exact absurd h (by decide)

/-- The packet size of the command in the table of handlers. -/
def NovusCommand.headerSize : NovusCommand → ℕ
  | .challenge => 3
  | .proof => 4

inductive NovusStatus where
  | challenge
  | proof
  | authed
  | closed
  deriving DecidableEq, Repr

/-- The status of the command in the table of handlers. -/
def NovusCommand.status : NovusCommand → NovusStatus
  | .challenge => .challenge
  | .proof => .proof

/-- `AUTH_SUCCESS`, the value of the enumeration `AuthResult` that does not report a failure. -/
def authSuccess : UInt8 := 0x00

/-! ### Fields -/

/-- The `len` bytes at the offset `off`. -/
def field (memory : Bytes) (off len : ℕ) : Vector UInt8 len :=
  Vector.ofFn fun i => memory.getD (off + i) 0

lemma field_append {m : Bytes} {off len : ℕ} (h : off + len ≤ m.length) (rest : Bytes) :
    field (m ++ rest) off len = field m off len := by
  unfold field
  congr 1
  funext i
  exact List.getD_append _ _ _ _ (by omega)

/-! ### `sAuthLogonChallengeData` and `sAuthLogonProofData` -/

structure SAuthLogonChallengeData where
  command : UInt8
  error : UInt8
  result : UInt8
  b : Vector UInt8 32
  gLength : UInt8
  g : UInt8
  nLength : UInt8
  n : Vector UInt8 32
  salt : Vector UInt8 32
  versionChallenge : Vector UInt8 16
  securityFlags : UInt8
  deriving DecidableEq

/-- The struct at the front of the memory. -/
def SAuthLogonChallengeData.ofBytes (memory : Bytes) : SAuthLogonChallengeData where
  command := memory.getD 0 0
  error := memory.getD 1 0
  result := memory.getD 2 0
  b := field memory 3 32
  gLength := memory.getD 35 0
  g := memory.getD 36 0
  nLength := memory.getD 37 0
  n := field memory 38 32
  salt := field memory 70 32
  versionChallenge := field memory 102 16
  securityFlags := memory.getD 118 0

/-- The fields of `sAuthLogonProofData` up to `M2`; the account flags, the survey and the login flags
behind them are not read. -/
structure SAuthLogonProofData where
  cmd : UInt8
  error : UInt8
  M2 : Vector UInt8 20
  deriving DecidableEq

def SAuthLogonProofData.ofBytes (memory : Bytes) : SAuthLogonProofData where
  cmd := memory.getD 0 0
  error := memory.getD 1 0
  M2 := field memory 2 20

theorem challengeData_append {m : Bytes} (h : 119 ≤ m.length) (rest : Bytes) :
    SAuthLogonChallengeData.ofBytes (m ++ rest) = SAuthLogonChallengeData.ofBytes m := by
  unfold SAuthLogonChallengeData.ofBytes
  simp only [field_append (show 3 + 32 ≤ m.length by omega),
    field_append (show 38 + 32 ≤ m.length by omega),
    field_append (show 70 + 32 ≤ m.length by omega),
    field_append (show 102 + 16 ≤ m.length by omega),
    List.getD_append _ _ _ _ (show 0 < m.length by omega),
    List.getD_append _ _ _ _ (show 1 < m.length by omega),
    List.getD_append _ _ _ _ (show 2 < m.length by omega),
    List.getD_append _ _ _ _ (show 35 < m.length by omega),
    List.getD_append _ _ _ _ (show 36 < m.length by omega),
    List.getD_append _ _ _ _ (show 37 < m.length by omega),
    List.getD_append _ _ _ _ (show 118 < m.length by omega)]

theorem proofData_append {m : Bytes} (h : 22 ≤ m.length) (rest : Bytes) :
    SAuthLogonProofData.ofBytes (m ++ rest) = SAuthLogonProofData.ofBytes m := by
  unfold SAuthLogonProofData.ofBytes
  simp only [field_append (show 2 + 20 ≤ m.length by omega),
    List.getD_append _ _ _ _ (show 0 < m.length by omega),
    List.getD_append _ _ _ _ (show 1 < m.length by omega)]

/-! ### The structs as the server writes them -/

/-- The 119 bytes of the packed struct. -/
def SAuthLogonChallengeData.toBytes (m : SAuthLogonChallengeData) : Bytes :=
  [m.command, m.error, m.result] ++ (m.b.toList ++ ([m.gLength, m.g, m.nLength] ++
    (m.n.toList ++ (m.salt.toList ++ (m.versionChallenge.toList ++ [m.securityFlags])))))

/-- The 32 bytes of the packed struct, with `rest` for the fields that are not read. -/
def SAuthLogonProofData.toBytes (m : SAuthLogonProofData) (rest : Vector UInt8 10) : Bytes :=
  [m.cmd, m.error] ++ (m.M2.toList ++ rest.toList)

lemma field_of_append {len : ℕ} {m l post : Bytes} {off : ℕ} (v : Vector UInt8 len)
    (hm : m = l ++ (v.toList ++ post)) (hl : l.length = off) : field m off len = v := by
  subst hm hl
  ext i hi
  unfold field
  rw [Vector.getElem_ofFn, List.getD_append_right _ _ _ _ (Nat.le_add_right _ _),
    Nat.add_sub_cancel_left, List.getD_append _ _ _ _ (by simpa using hi)]
  simp [List.getD_eq_getElem?_getD, hi]

lemma getD_of_append {m l post : Bytes} {off : ℕ} {x : UInt8} (hm : m = l ++ x :: post)
    (hl : l.length = off) : m.getD off 0 = x := by
  subst hm hl
  simp [List.getD_eq_getElem?_getD]

/-- **Decoding the struct gives it back.** -/
theorem challengeData_toBytes (m : SAuthLogonChallengeData) :
    SAuthLogonChallengeData.ofBytes m.toBytes = m := by
  obtain ⟨command, error, result, b, gLength, g, nLength, n, salt, version, flags⟩ := m
  unfold SAuthLogonChallengeData.ofBytes SAuthLogonChallengeData.toBytes
  rw [SAuthLogonChallengeData.mk.injEq]
  refine ⟨rfl, rfl, rfl, ?_, ?_, ?_, ?_, ?_, ?_, ?_, ?_⟩
  · exact field_of_append (l := [command, error, result]) b rfl rfl
  · exact getD_of_append (l := [command, error, result] ++ b.toList)
      (by simp only [List.append_assoc]; rfl) (by simp)
  · exact getD_of_append (l := [command, error, result] ++ b.toList ++ [gLength])
      (by simp only [List.append_assoc]; rfl) (by simp)
  · exact getD_of_append (l := [command, error, result] ++ b.toList ++ [gLength, g])
      (by simp only [List.append_assoc]; rfl) (by simp)
  · exact field_of_append (l := [command, error, result] ++ b.toList ++ [gLength, g, nLength]) n
      (by simp only [List.append_assoc]; rfl) (by simp)
  · exact field_of_append
      (l := [command, error, result] ++ b.toList ++ [gLength, g, nLength] ++ n.toList) salt
      (by simp only [List.append_assoc]; rfl) (by simp)
  · exact field_of_append (l := [command, error, result] ++ b.toList ++ [gLength, g, nLength] ++
      n.toList ++ salt.toList) version (by simp only [List.append_assoc]; rfl) (by simp)
  · exact getD_of_append (l := [command, error, result] ++ b.toList ++ [gLength, g, nLength] ++
      n.toList ++ salt.toList ++ version.toList) (by simp only [List.append_assoc]; rfl) (by simp)

theorem proofData_toBytes (m : SAuthLogonProofData) (rest : Vector UInt8 10) :
    SAuthLogonProofData.ofBytes (m.toBytes rest) = m := by
  obtain ⟨cmd, error, M2⟩ := m
  unfold SAuthLogonProofData.ofBytes SAuthLogonProofData.toBytes
  rw [SAuthLogonProofData.mk.injEq]
  refine ⟨rfl, rfl, ?_⟩
  exact field_of_append (l := [cmd, error]) M2 rfl rfl

/-! ### The headers of failure replies -/

structure SAuthLogonChallengeHeader where
  command : UInt8
  error : UInt8
  result : UInt8

/-- `sAuthLogonChallengeHeader::Read`. -/
def SAuthLogonChallengeHeader.read (buffer : ByteBuffer) :
    SAuthLogonChallengeHeader × ByteBuffer :=
  let (command, buffer) := buffer.readU8
  let (error, buffer) := buffer.readU8
  let (result, buffer) := buffer.readU8
  (⟨command, error, result⟩, buffer)

structure SAuthLogonProofHeader where
  command : UInt8
  error : UInt8
  accountFlags : ℕ

/-- `sAuthLogonProofHeader::Read`. -/
def SAuthLogonProofHeader.read (buffer : ByteBuffer) : SAuthLogonProofHeader × ByteBuffer :=
  let (command, buffer) := buffer.readU8
  let (error, buffer) := buffer.readU8
  let (accountFlags, buffer) := buffer.readU16
  (⟨command, error, accountFlags⟩, buffer)

/-! ### Packets the client sends -/

/-- `cAuthLogonChallenge` for a username: the 34 bytes before the name, and the name.  The constructor
copies the whole name into a field of 16 bytes, so it is undefined for a longer one. -/
def cAuthLogonChallenge (username : Bytes) : Option Bytes :=
  if username.length ≤ 16 then
    let usernameLength := UInt8.ofNat username.length
    let size := 30 + usernameLength.toNat
    some <|
      [NovusCommand.challenge.code, 8, UInt8.ofNat size, UInt8.ofNat (size / 256)] ++
        [0x57, 0x6F, 0x57, 0] ++ [3, 3, 5] ++ [0x34, 0x30] ++ [0x36, 0x38, 0x78, 0] ++
        [0x6E, 0x69, 0x57, 0] ++ [0x53, 0x55, 0x6E, 0x65] ++ [60, 0, 0, 0] ++ [127, 0, 0, 1] ++
        [usernameLength] ++ username
  else none

/-- `cAuthLogonProof`, as the 75 bytes of the packed struct. -/
structure CAuthLogonProof where
  command : UInt8
  A : Bytes
  M1 : Bytes
  crcHash : Bytes
  numberOfKeys : UInt8
  securityFlags : UInt8

def CAuthLogonProof.toBytes (p : CAuthLogonProof) : Bytes :=
  [p.command] ++ p.A ++ p.M1 ++ p.crcHash ++ [p.numberOfKeys, p.securityFlags]

/-! ### Complete replies -/

inductive ReplyKind where
  | challenge
  | challengeFailed
  | proof
  | proofFailed
  deriving DecidableEq, Repr

namespace ReplyKind

def size : ReplyKind → ℕ
  | .challenge => 119
  | .challengeFailed => 3
  | .proof => 32
  | .proofFailed => 4

def command : ReplyKind → NovusCommand
  | .challenge | .challengeFailed => .challenge
  | .proof | .proofFailed => .proof

/-- The status in which the client expects the reply. -/
def status (k : ReplyKind) : NovusStatus := k.command.status

end ReplyKind

/-- A complete reply: as many bytes as its kind has, the first of them its command. -/
structure Reply where
  kind : ReplyKind
  bytes : Bytes
  length_eq : bytes.length = kind.size
  command_eq : bytes.head? = some kind.command.code

/-- The reply with these fields. -/
def SAuthLogonChallengeData.toReply (m : SAuthLogonChallengeData)
    (h : m.command = NovusCommand.challenge.code) : Reply where
  kind := .challenge
  bytes := m.toBytes
  length_eq := by simp [SAuthLogonChallengeData.toBytes, ReplyKind.size]
  command_eq := by simp [SAuthLogonChallengeData.toBytes, ReplyKind.command, h]

def SAuthLogonProofData.toReply (m : SAuthLogonProofData) (rest : Vector UInt8 10)
    (h : m.cmd = NovusCommand.proof.code) : Reply where
  kind := .proof
  bytes := m.toBytes rest
  length_eq := by simp [SAuthLogonProofData.toBytes, ReplyKind.size]
  command_eq := by simp [SAuthLogonProofData.toBytes, ReplyKind.command, h]

lemma Reply.length_pos (m : Reply) : 0 < m.bytes.length := by
  rw [m.length_eq]
  cases m.kind <;> decide

lemma Reply.length_challenge {m : Reply} (hk : m.kind = .challenge) : m.bytes.length = 119 := by
  rw [m.length_eq, hk]
  rfl

lemma Reply.length_proof {m : Reply} (hk : m.kind = .proof) : m.bytes.length = 32 := by
  rw [m.length_eq, hk]
  rfl

lemma Reply.headerSize_le (m : Reply) : m.kind.command.headerSize ≤ m.bytes.length := by
  rw [m.length_eq]
  cases m.kind <;> decide

lemma Reply.headerSize_le_of (m : Reply) {cmd : NovusCommand} (h : m.kind.command = cmd) :
    cmd.headerSize ≤ m.bytes.length := h ▸ m.headerSize_le

lemma Reply.getD_zero (m : Reply) (rest : Bytes) :
    (m.bytes ++ rest).getD 0 0 = m.kind.command.code := by
  have h := m.command_eq
  cases hb : m.bytes with
  | nil => simp [hb] at h
  | cons c bs =>
    rw [hb] at h
    simpa using h

end NovusHeadless
