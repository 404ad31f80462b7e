import RaftMonitor.PacketTypes

namespace RaftMonitor.EtcdRAFT

def payload (pkt : List UInt8) : Text := pkt.map fun b => Char.ofNat b.toNat

inductive RequestForm
  | append
  | version
  | admin
  | join
  | vote
  | putKeys
  | getKeys
  deriving DecidableEq, Repr

def RequestForm.text : RequestForm → Text
  | .append => "POST /log/append HTTP/1.1".toList
  | .version => "GET /version HTTP/1.1".toList
  | .admin => "GET /v2/admin".toList
  | .join => "PUT /join".toList
  | .vote => "POST /vote".toList
  | .putKeys => "PUT /v2/keys".toList
  | .getKeys => "GET /v2/keys".toList

def RequestForm.type : RequestForm → PacketType
  | .append => .appendHeartbeat
  | .version => .getRpcVersions
  | .admin => .getConfig
  | .join => .setConfig
  | .vote => .requestVote
  | .putKeys => .readWriteTree
  | .getKeys => .readOnlyTree

/-- The start line of a message, which is all of a status line and the beginning of a request
line. -/
inductive StartLine
  | request (form : RequestForm)
  | status (code reason : Text)

def StartLine.text : StartLine → Text
  | .request form => form.text
  | .status code reason => "HTTP/1.1 ".toList ++ code ++ " ".toList ++ reason ++ "\r\n".toList

def StartLine.type : StartLine → PacketType
  | .request form => form.type
  | .status _ _ => .reply

def ok : Text := "200 OK".toList

def rules : List (Text × PacketType) :=
  [(RequestForm.append.text, .appendHeartbeat), (ok, .reply),
    (RequestForm.version.text, .getRpcVersions), (RequestForm.admin.text, .getConfig),
    (RequestForm.join.text, .setConfig), (RequestForm.vote.text, .requestVote),
    (RequestForm.putKeys.text, .readWriteTree), (RequestForm.getKeys.text, .readOnlyTree)]

theorem packetType_eq_firstMatch (pkt : List UInt8) :
    packetType pkt = firstMatch .reply rules (payload pkt) := rfl

def RequestForm.earlier (form : RequestForm) : List (Text × PacketType) :=
  rules.takeWhile fun r => r.1 ≠ form.text

theorem RequestForm.rules_eq (form : RequestForm) :
    ∃ after, rules = form.earlier ++ (form.text, form.type) :: after := by
  cases form <;> exact ⟨_, rfl⟩

theorem RequestForm.type_notMem_earlier (form : RequestForm) :
    form.type ∉ form.earlier.map Prod.snd := by
  cases form <;> decide

theorem packetType_eq_type_iff {form : RequestForm} {pkt : List UInt8}
    (h : form.text <:+: payload pkt) :
    packetType pkt = form.type ↔ ∀ r ∈ form.earlier, ¬ r.1 <:+: payload pkt := by
  obtain ⟨after, hrules⟩ := form.rules_eq
  rw [packetType_eq_firstMatch, hrules, firstMatch_append_eq_iff form.type_notMem_earlier,
    firstMatch_cons_of_occurs h]
  exact and_iff_left rfl

/-- A packet is taken for a reply when it holds `200 OK` and no append request, or nothing that
is looked for at all. -/
theorem packetType_eq_reply_iff (pkt : List UInt8) :
    packetType pkt = .reply ↔ ¬ RequestForm.append.text <:+: payload pkt ∧
      (ok <:+: payload pkt ∨ ∀ r ∈ rules, ¬ r.1 <:+: payload pkt) := by
  have hrules : rules = [(RequestForm.append.text, .appendHeartbeat)] ++ (ok, .reply) ::
      (rules.drop 2 ++ []) := rfl
  rw [packetType_eq_firstMatch, hrules, firstMatch_append_eq_iff (by decide), ← hrules]
  by_cases hok : ok <:+: payload pkt
  · rw [firstMatch_cons_of_occurs hok]
    simp [hok]
  · rw [firstMatch_cons_of_absent hok, firstMatch_append_eq_iff (by decide)]
    simp [rules, firstMatch, hok]

/-- Nothing in the packet stands in the way of its start line: no pattern that is looked for
earlier than the request's occurs anywhere; or, with a status line, no append request occurs,
and `200 OK` does or no pattern does. -/
def StartLine.Undisturbed (line : StartLine) (data : Text) : Prop :=
  match line with
  | .request form => ∀ r ∈ form.earlier, ¬ r.1 <:+: data
  | .status _ _ => ¬ RequestForm.append.text <:+: data ∧
      (ok <:+: data ∨ ∀ r ∈ rules, ¬ r.1 <:+: data)

instance (line : StartLine) (data : Text) : Decidable (line.Undisturbed data) :=
  match line with
  | .request _ => inferInstanceAs (Decidable (∀ _ ∈ _, _))
  | .status _ _ => inferInstanceAs (Decidable (_ ∧ _))

/-- A packet that begins with a start line, whatever follows, is classified by this line if and
only if nothing in the packet disturbs. -/
theorem packetType_eq_iff_undisturbed (line : StartLine) (pkt : List UInt8)
    (h : line.text <+: payload pkt) :
    packetType pkt = line.type ↔ line.Undisturbed (payload pkt) := by
  cases line with
  | request form => exact packetType_eq_type_iff h.isInfix
  | status code reason => exact packetType_eq_reply_iff pkt

def bytes (t : Text) : List UInt8 := t.map fun c => UInt8.ofNat c.toNat

theorem vote_is_requestVote :
    packetType (bytes "POST /vote HTTP/1.1\r\n\r\n".toList) = .requestVote := by
  apply (packetType_eq_iff_undisturbed (.request .vote) _ (by decide)).mpr
  decide

def putRequest (value : Text) : List UInt8 :=
  bytes ("PUT /v2/keys/greeting HTTP/1.1\r\nContent-Length: 12\r\n\r\nvalue=".toList ++ value)

/-- A request to store the text `200 OK` passes for a reply. -/
theorem put_ok_is_reply :
    (StartLine.request .putKeys).text <+: payload (putRequest "200 OK".toList) ∧
      packetType (putRequest "200 OK".toList) = .reply := by
  decide

end RaftMonitor.EtcdRAFT
