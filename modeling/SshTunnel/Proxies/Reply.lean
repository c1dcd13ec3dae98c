import SshTunnel.Lib.Net

/-!
# The reply of the DNS handler (`proxy/dnsproxy.go:124-129`, `160-199`)

The answer has come over TCP and goes to the client as one UDP datagram. The loop
packs it and looks whether it fits; on the branch where it does not, nothing is
taken out of the message, and the next round packs the same one.
-/

namespace SshTunnel.Proxies.Reply

open Lib.Net (Text)

abbrev Datagram := List UInt8

structure Messages (Msg RR : Type) where
  truncate : Msg → ℕ → Msg
  pack : Msg → Except Text Datagram
  answer : Msg → List RR

def minMsgSize : UInt16 := 512

/-- The size of a datagram, with the one of the EDNS0 option of the request. -/
def msgSize : Option UInt16 → UInt16
  | some udpSize => if minMsgSize ≤ udpSize then udpSize else minMsgSize
  | none => minMsgSize

inductive Round (Msg : Type) where
  | again (response : Msg)
  | ended (written : List Datagram)

section Send

variable {Msg RR : Type} (msgs : Messages Msg RR)

/-- One round of the loop; a `break` ends it with what was given to `w.Write`. -/
def sendRound (size : UInt16) (response : Msg) : Round Msg :=
  match msgs.pack response with
  | .error _ => .ended []
  | .ok data =>
    if data.length ≤ size.toNat then .ended [data]
    else if (msgs.answer response).length = 0 then .ended [data]
    else .again response

/-- `none` when the loop has not ended within `n` rounds. -/
def sendLoop (size : UInt16) : ℕ → Msg → Option (List Datagram)
  | 0, _ => none
  | n + 1, response =>
    match sendRound msgs size response with
    | .again response' => sendLoop size n response'
    | .ended written => some written

def reply (opt : Option UInt16) (n : ℕ) (response : Msg) : Option (List Datagram) :=
  sendLoop msgs (msgSize opt) n (msgs.truncate response (msgSize opt).toNat)

/-- The loop ends with at most one datagram, of the right size if the message can
be shortened at all. -/
def EndsWell (opt : Option UInt16) (response : Msg) : Prop :=
  ∃ n written, reply msgs opt n response = some written ∧ written.length ≤ 1 ∧
    ∀ data ∈ written, data.length ≤ (msgSize opt).toNat ∨
      msgs.answer (msgs.truncate response (msgSize opt).toNat) = []

/-- If the message can be packed, it fits or has no answer record. -/
def Sendable (size : UInt16) (response : Msg) : Prop :=
  ∀ data, msgs.pack response = .ok data →
    data.length ≤ size.toNat ∨ msgs.answer response = []

variable {msgs} {size : UInt16} {response response' : Msg} {written : List Datagram}

theorem sendRound_again (h : sendRound msgs size response = .again response') :
    response' = response ∧ ¬Sendable msgs size response := by
  unfold sendRound at h
  cases hp : msgs.pack response with
  | error err =>
    rw [hp] at h
    cases h
  | ok data =>
    simp only [hp] at h
    split_ifs at h with hfits hnone
    cases h
    refine ⟨rfl, fun hs => ?_⟩
    rcases hs data hp with hle | hnil
    · exact hfits hle
    · exact hnone (List.length_eq_zero_iff.mpr hnil)

theorem sendRound_ended (h : sendRound msgs size response = .ended written) :
    Sendable msgs size response ∧ written.length ≤ 1 ∧
      ∀ data ∈ written, msgs.pack response = .ok data := by
  unfold sendRound at h
  cases hp : msgs.pack response with
  | error err =>
    rw [hp] at h
    cases h
    refine ⟨fun data hd => ?_, Nat.zero_le 1, fun data hd => absurd hd List.not_mem_nil⟩
    rw [hp] at hd
    cases hd
  | ok data =>
    simp only [hp] at h
    split_ifs at h with hfits hnone
    · cases h
      have hs : Sendable msgs size response := by
        intro d hd
        rw [hp] at hd
        cases hd
        exact .inl hfits
      exact ⟨hs, le_rfl, fun d hd => (congrArg Except.ok (List.mem_singleton.mp hd)).symm⟩
    · cases h
      have hs : Sendable msgs size response := fun _ _ => .inr (List.length_eq_zero_iff.mp hnone)
      exact ⟨hs, le_rfl, fun d hd => (congrArg Except.ok (List.mem_singleton.mp hd)).symm⟩

/-- A round that does not end the loop leaves the message as it is. -/
theorem sendLoop_stuck (h : ¬Sendable msgs size response) (n : ℕ) :
    sendLoop msgs size n response = none := by
  induction n with
  | zero => rfl
  | succ n ih =>
    rw [sendLoop]
    cases hr : sendRound msgs size response with
    | again response' =>
      obtain ⟨rfl, -⟩ := sendRound_again hr
      exact ih
    | ended written => exact absurd (sendRound_ended hr).1 h

theorem sendLoop_sendable (h : Sendable msgs size response) :
    ∃ written, sendLoop msgs size 1 response = some written ∧ written.length ≤ 1 ∧
      ∀ data ∈ written, msgs.pack response = .ok data := by
  cases hr : sendRound msgs size response with
  | again response' => exact absurd h (sendRound_again hr).2
  | ended written =>
    refine ⟨written, ?_, (sendRound_ended hr).2⟩
    rw [sendLoop, hr]

end Send

/-- The loop ends as it should exactly for a message that it can send in the first round. -/
theorem reply_endsWell_iff {Msg RR : Type} (msgs : Messages Msg RR) (opt : Option UInt16)
    (response : Msg) :
    EndsWell msgs opt response ↔
      Sendable msgs (msgSize opt) (msgs.truncate response (msgSize opt).toNat) := by
  constructor
  · rintro ⟨n, written, hreply, -⟩
    by_contra hstuck
    rw [reply, sendLoop_stuck hstuck] at hreply
    cases hreply
  · intro hsendable
    obtain ⟨written, hloop, hlen, hpacked⟩ := sendLoop_sendable hsendable
    exact ⟨1, written, hloop, hlen, fun data hd => hsendable data (hpacked data hd)⟩

/-- Messages as a header of twelve bytes and their answer records. -/
def plainMessages : Messages (List Datagram) Datagram where
  truncate response _ := response
  pack response := .ok (List.replicate 12 0 ++ response.flatten)
  answer response := response

def longRecord : Datagram := List.replicate 600 0

def longPacked : Datagram := List.replicate 12 0 ++ [longRecord].flatten

theorem longRecord_packed : plainMessages.pack [longRecord] = .ok longPacked := rfl

theorem longPacked_length : longPacked.length = 612 := by
  have hrecord : longRecord.length = 600 := List.length_replicate
  have hheader : (List.replicate 12 (0 : UInt8)).length = 12 := List.length_replicate
  rw [longPacked, List.length_append, hheader, List.flatten_cons, List.length_append, hrecord,
    List.flatten_nil, List.length_nil]

/-- A message that is still too long when it comes to the loop is packed for ever. -/
theorem long_record_never_sent :
    (∀ n, reply plainMessages none n [longRecord] = none) ∧
      ¬∀ (msgs : Messages (List Datagram) Datagram) opt response, EndsWell msgs opt response := by
  have hlong : ¬Sendable plainMessages (msgSize none) [longRecord] := by
    intro h
    refine (h _ longRecord_packed).elim (fun hle => ?_) fun hnil => List.cons_ne_nil _ _ hnil
    rw [longPacked_length, show (msgSize none).toNat = 512 from rfl] at hle
    omega
  refine ⟨fun n => sendLoop_stuck hlong n, fun hall => ?_⟩
  obtain ⟨n, _, hreply, -⟩ := hall plainMessages none [longRecord]
  rw [reply, show plainMessages.truncate [longRecord] (msgSize none).toNat =
    [longRecord] from rfl, sendLoop_stuck hlong] at hreply
  cases hreply

end SshTunnel.Proxies.Reply
