import NovusHeadless.Connection.Runs

/-!
# The logon challenge as an encoding (`Connection/NovusConnection.h`, `NovusConnection.cpp`)

`Start` computes the length of the name three times: as the `u8` field `username_length`, as the part of
the `u16` field `size` that comes from it, and as a part of the `u32` that is the number of bytes sent.
The name is copied into a field of 16 bytes at the end of the struct.

* `lengths_agree_iff` — the three lengths are about the same name exactly when it is shorter than 256;
* `startEncodes_iff` — `Start` sends an encoding of the name, or reports that it has failed, exactly when it
  does not connect or the name fits into the field.
-/

namespace NovusHeadless

open Lib NovusConnection

/-! ### The three lengths -/

/-- `username_length`. -/
def usernameLength (username : Bytes) : UInt8 := UInt8.ofNat username.length

/-- `size`. -/
def sizeField (username : Bytes) : UInt16 := UInt16.ofNat (30 + (usernameLength username).toNat)

/-- `challengeSize`. -/
def challengeSize (username : Bytes) : UInt32 := 34 + UInt32.ofNat username.length

lemma sizeField_toNat (username : Bytes) :
    (sizeField username).toNat = 30 + username.length % 256 := by
  unfold sizeField usernameLength
  rw [UInt16.toNat_ofNat', UInt8.toNat_ofNat']
  omega

/-- Up to 255 bytes the fields tell the length of the packet and of the name. -/
theorem lengths_agree_iff (username : Bytes) :
    ((usernameLength username).toNat = username.length ∧
        (sizeField username).toNat + 4 = (challengeSize username).toNat) ↔
      username.length < 256 := by
  have hname : (usernameLength username).toNat = username.length % 256 := by
    unfold usernameLength
    rw [UInt8.toNat_ofNat']
  have hsize : (challengeSize username).toNat = (34 + username.length % 2 ^ 32) % 2 ^ 32 := by
    unfold challengeSize
    rw [UInt32.toNat_add, UInt32.toNat_ofNat']
    rfl
  rw [hname, sizeField_toNat, hsize]
  omega

/-! ### The packet and its reader -/

/-- A reader that goes by the two length fields. -/
def parseLogonChallenge (p : Bytes) : Option Bytes :=
  let size := (p.getD 2 0).toNat + 256 * (p.getD 3 0).toNat
  let nameLength := (p.getD 33 0).toNat
  if size + 4 = p.length ∧ nameLength + 34 = p.length then some ((p.drop 34).take nameLength)
  else none

/-- The packet is a faithful encoding of the name. -/
structure Encodes (username p : Bytes) : Prop where
  header : 34 ≤ p.length
  size : (p.getD 2 0).toNat + 256 * (p.getD 3 0).toNat + 4 = p.length
  nameLength : (p.getD 33 0).toNat = username.length
  name : p.drop 34 = username

/-- **The reader recovers the name.** -/
theorem Encodes.parse {username p : Bytes} (h : Encodes username p) :
    parseLogonChallenge p = some username := by
  have hlen : username.length + 34 = p.length := by
    have hdrop := congrArg List.length h.name
    have hheader := h.header
    rw [List.length_drop] at hdrop
    omega
  unfold parseLogonChallenge
  simp only [h.nameLength, h.name]
  rw [if_pos ⟨h.size, hlen⟩, List.take_length]

section

variable {username : Bytes}

lemma cAuthLogonChallenge_header (h : username.length ≤ 16) :
    ∃ header : Bytes, header.length = 34 ∧ header.getD 2 0 = UInt8.ofNat (30 + username.length) ∧
      header.getD 3 0 = 0 ∧ header.getD 33 0 = UInt8.ofNat username.length ∧
      cAuthLogonChallenge username = some (header ++ username) := by
  have hlen : (UInt8.ofNat username.length).toNat = username.length := by
    rw [UInt8.toNat_ofNat']
    omega
  have hhigh : (30 + username.length) / 256 = 0 := by omega
  unfold cAuthLogonChallenge
  simp only [if_pos h, hlen, hhigh]
  exact ⟨_, rfl, rfl, rfl, rfl, rfl⟩

theorem exists_cAuthLogonChallenge (h : username.length ≤ 16) :
    ∃ p, cAuthLogonChallenge username = some p ∧ Encodes username p := by
  obtain ⟨header, hlen, hlow, hhigh, hname, heq⟩ := cAuthLogonChallenge_header h
  refine ⟨header ++ username, heq, ?_, ?_, ?_, ?_⟩
  · rw [List.length_append, hlen]
    omega
  · rw [List.getD_append _ _ _ _ (by omega), List.getD_append _ _ _ _ (by omega), hlow, hhigh,
      UInt8.toNat_ofNat', List.length_append, hlen]
    show (30 + username.length) % 256 + 256 * 0 + 4 = 34 + username.length
    omega
  · rw [List.getD_append _ _ _ _ (by omega), hname, UInt8.toNat_ofNat']
    omega
  · rw [← hlen, List.drop_left]

end

/-! ### `Start` -/

/-- `Start` sends an encoding of the name that its reader recovers, or sends nothing and reports failure;
there is no access outside of an object on the way. -/
def StartEncodes (env : Env) (c : NovusConnection) (username password : Bytes) : Prop :=
  ∃ ok c', c.start env username password = some (ok, c') ∧
    ((ok = true ∧ ∃ p, c'.sent = c.sent ++ [p] ∧ Encodes username p ∧
        parseLogonChallenge p = some username) ∨
      (ok = false ∧ c'.sent = c.sent))

section

variable {env : Env} {c : NovusConnection} {username password : Bytes}

lemma start_of_not_connects (h : env.connects = false) :
    c.start env username password = some (false, c) := by
  unfold start
  rw [if_neg (by rw [h]; exact Bool.false_ne_true)]
  rfl

lemma start_eq_none (h : env.connects = true) (hu : cAuthLogonChallenge username = none) :
    c.start env username password = none := by
  unfold start
  rw [if_pos h, hu]
  rfl

lemma exists_start {p : Bytes} (h : env.connects = true) (hu : cAuthLogonChallenge username = some p)
    (hne : p ≠ []) (hlen : p.length < 2 ^ 32) :
    ∃ c', c.start env username password = some (true, c') ∧ c'.sent = c.sent ++ [p] := by
  unfold start
  rw [if_pos h, hu]
  refine ⟨_, rfl, ?_⟩
  obtain ⟨d, hd⟩ : ∃ d : NovusConnection,
      d = { c with toBaseSocket := c.toBaseSocket.connect }.asyncRead := ⟨_, rfl⟩
  have hsent : d.sent = c.sent := by
    rw [hd]
    exact BaseSocket.asyncRead_sent c.toBaseSocket.connect
  have hsend := congrArg BaseSocket.sent (send_packet (c := d) hne hlen)
  rw [← hsent]
  subst hd
  exact hsend

/-- **When the packet is an encoding of the name.** -/
theorem startEncodes_iff (env : Env) (c : NovusConnection) (username password : Bytes) :
    StartEncodes env c username password ↔ env.connects = false ∨ username.length ≤ 16 := by
  constructor
  · rintro ⟨ok, c', hstart, -⟩
    cases hconnects : env.connects with
    | false => exact Or.inl rfl
    | true =>
      right
      by_contra hlong
      have hnone : cAuthLogonChallenge username = none := by
        unfold cAuthLogonChallenge
        rw [if_neg hlong]
      rw [start_eq_none hconnects hnone] at hstart
      exact Option.some_ne_none _ hstart.symm
  · intro h
    cases hconnects : env.connects with
    | false => exact ⟨false, c, start_of_not_connects hconnects, Or.inr ⟨rfl, rfl⟩⟩
    | true =>
      rw [hconnects, or_iff_right (by decide)] at h
      obtain ⟨p, hp, hencodes⟩ := exists_cAuthLogonChallenge h
      have hheader := hencodes.header
      have hdrop := congrArg List.length hencodes.name
      rw [List.length_drop] at hdrop
      have hne : p ≠ [] := List.ne_nil_of_length_pos (by omega)
      have hstarts : ∃ c', c.start env username password = some (true, c') ∧
          c'.sent = c.sent ++ [p] := exists_start hconnects hp hne (by omega)
      obtain ⟨c', hstart, hsent⟩ := hstarts
      exact ⟨true, c', hstart, Or.inl ⟨rfl, p, hsent, hencodes, hencodes.parse⟩⟩

end

/-- A name of 17 bytes is copied beyond the end of the struct. -/
theorem long_name_not_encoded :
    ¬ ∀ (env : Env) (c : NovusConnection) (username password : Bytes),
      StartEncodes env c username password := by
  intro h
  have hlong : cAuthLogonChallenge (List.replicate 17 0x41) = none := by
    unfold cAuthLogonChallenge
    rw [if_neg (by rw [List.length_replicate]; norm_num)]
  obtain ⟨ok, c', hstart, -⟩ := h sampleEnv (.new (Vector.replicate 20 0)) (List.replicate 17 0x41) []
  rw [start_eq_none rfl hlong] at hstart
  exact Option.some_ne_none _ hstart.symm

end NovusHeadless
