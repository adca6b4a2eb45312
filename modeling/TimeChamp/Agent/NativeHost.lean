import TimeChamp.Lib.GoJson

/-!
# The native messaging host

`extensions/native-host/main.go`, and what a handler of the agent's URL listener (`cmd/agent/main.go`) makes of a frame.

* `marshal`, `unmarshal` : a message as JSON; `frame` : with its length before it;
* `readFrame limit` : the reader of host and agent, with the limit of each; `readFrame_frame`;
* `messagesRead`, `forwardedURLs` : what the host reads of its input, and the URLs it forwards;
* `receive_forwardURL` : **the agent takes a forwarded URL exactly when its message is not longer than the agent's limit**.

The acknowledgements to the extension are left out.
-/

namespace TimeChamp.Agent.NativeHost
open Lib

abbrev Bytes := List UInt8

/-- The JSON structure exchanged with the extension, and with the agent. -/
structure Message where
  type : String
  url : String
deriving DecidableEq

/-- `json.Marshal`. An empty URL is omitted. -/
def marshal (msg : Message) : String :=
  String.ofList (Json.object (("type", Json.quoteHTML msg.type) ::
    if msg.url = "" then [] else [("url", Json.quoteHTML msg.url)]))

/-- Field names are compared without case. -/
def isField (name key : String) : Bool := key.toList.map Char.toLower == name.toList

/-- A field takes a string and keeps its value for null; anything else is an error. -/
def stored (field : String) : GoJson.Held → Option String
  | .string s => some s
  | .null => some field
  | .other => none

def Message.store (msg : Message) (m : String × GoJson.Held) : Option Message :=
  if isField "type" m.1 then (stored msg.type m.2).map fun type => { msg with type := type }
  else if isField "url" m.1 then (stored msg.url m.2).map fun url => { msg with url := url }
  else some msg

/-- `json.Unmarshal` into a message. -/
def unmarshal (data : Bytes) : Option Message :=
  (GoJson.members (GoJson.decodeRunes data)).bind fun ms => ms.foldlM Message.store ⟨"", ""⟩

inductive ReadError where
  | eof
  | unexpectedEOF
  | tooLarge (length : Nat)
  | invalid
deriving DecidableEq

/-- `binary.Read` of the length, `io.ReadFull` of so many bytes and `json.Unmarshal`, with what is left to read. -/
def readFrame (limit : Nat) (r : Bytes) : Except ReadError (Message × Bytes) :=
  if r = [] then .error .eof
  else if r.length < 4 then .error .unexpectedEOF
  else
    let length := ofLE (r.take 4)
    let rest := r.drop 4
    if limit < length then .error (.tooLarge length)
    else if rest.length < length then .error (if rest = [] then .eof else .unexpectedEOF)
    else
      match unmarshal (rest.take length) with
      | none => .error .invalid
      | some msg => .ok (msg, rest.drop length)

/-- What `writeMessage` and `forwardURL` write: the length as a `uint32`, and the message. -/
def frame (msg : Message) : Bytes := toLE 4 (utf8 (marshal msg)).length ++ utf8 (marshal msg)

/-- A Chrome Native Messaging framed message, of 1 MiB at most. -/
def readMessage (stdin : Bytes) : Except ReadError (Message × Bytes) := readFrame (1 <<< 20) stdin

/-- What `forwardURL` writes to the agent. -/
def forwardURL (url : String) : Bytes := frame ⟨"url", url⟩

/-- The URL that a handler of the agent stores, of what it was sent. -/
def receive (sent : Bytes) : Option String :=
  match readFrame 4096 sent with
  | .ok (msg, _) => if msg.type = "url" ∧ msg.url ≠ "" then some msg.url else none
  | .error _ => none

theorem length_of_readFrame {limit : Nat} {r rest : Bytes} {msg : Message} (h : readFrame limit r = .ok (msg, rest)) :
    rest.length < r.length ∧ ∃ data, data.length ≤ limit ∧ unmarshal data = some msg := by
  unfold readFrame at h
  dsimp only at h
  split_ifs at h with hempty hshort hlimit hrest
  cases hmsg : unmarshal ((r.drop 4).take (ofLE (r.take 4))) with
  | none =>
      rw [hmsg] at h
      exact absurd h (by simp)
  | some found =>
      rw [hmsg] at h
      obtain ⟨rfl, rfl⟩ := Prod.mk.inj (Except.ok.inj h)
      refine ⟨?_, _, ?_, hmsg⟩
      · rw [List.length_drop, List.length_drop]
        omega
      · rw [List.length_take]
        omega

/-- The loop of the host: the messages up to the end of the input, or the first error. -/
def messagesRead (stdin : Bytes) : List Message :=
  match _h : readMessage stdin with
  | .error _ => []
  | .ok (msg, rest) => msg :: messagesRead rest
termination_by stdin.length
decreasing_by exact (length_of_readFrame _h).1

theorem messagesRead_of_ok {stdin rest : Bytes} {msg : Message} (h : readMessage stdin = .ok (msg, rest)) :
    messagesRead stdin = msg :: messagesRead rest := by
  rw [messagesRead]
  split
  · next _ herror =>
      rw [h] at herror
      exact absurd herror (by simp)
  · next _ _ hok =>
      rw [h] at hok
      obtain ⟨rfl, rfl⟩ := Prod.mk.inj (Except.ok.inj hok)
      rfl

theorem messagesRead_of_error {stdin : Bytes} {e : ReadError} (h : readMessage stdin = .error e) :
    messagesRead stdin = [] := by
  rw [messagesRead]
  split
  · rfl
  · next _ _ hok =>
      rw [h] at hok
      exact absurd hok (by simp)

/-- The URLs that the host forwards, in this order. -/
def forwardedURLs (stdin : Bytes) : List String :=
  (messagesRead stdin).filterMap fun msg => if msg.type = "url" ∧ msg.url ≠ "" then some msg.url else none

/-! ## Messages -/

theorem Message.store_type (msg : Message) (s : String) :
    msg.store ("type", .string s) = some { msg with type := s } :=
  if_pos (show isField "type" "type" = true by decide)

theorem Message.store_url (msg : Message) (s : String) :
    msg.store ("url", .string s) = some { msg with url := s } :=
  (if_neg (show ¬ isField "type" "url" = true by decide)).trans
    (if_pos (show isField "url" "url" = true by decide))

theorem unmarshal_marshal (msg : Message) : unmarshal (utf8 (marshal msg)) = some msg := by
  have hread := GoJson.members_object (("type", msg.type) :: if msg.url = "" then [] else [("url", msg.url)])
  rw [unmarshal, GoJson.decodeRunes_utf8, marshal, String.toList_ofList]
  by_cases hurl : msg.url = ""
  · rw [if_pos hurl] at hread ⊢
    rw [List.map_cons, List.map_nil] at hread
    rw [hread, Option.bind_some, List.map_cons, List.foldlM_cons, Message.store_type]
    show some (⟨msg.type, ""⟩ : Message) = some msg
    rw [← hurl]
  · rw [if_neg hurl] at hread ⊢
    rw [List.map_cons, List.map_cons, List.map_nil] at hread
    rw [hread, Option.bind_some, List.map_cons, List.map_cons, List.foldlM_cons, Message.store_type]
    show (Message.store _ ("url", .string msg.url)).bind _ = _
    rw [Message.store_url]
    rfl

example : unmarshal (utf8 "\x7b \"tab\": [1, null], \"URL\": \"a\", \"type\": \"url\" \x7d") = some ⟨"url", "a"⟩ := by
  decide +kernel

section
variable {limit : Nat} {msg : Message} (hword : (marshal msg).utf8ByteSize < 2 ^ 32) (rest : Bytes)

include hword

theorem readFrame_layout : readFrame limit (frame msg ++ rest) =
    if limit < (marshal msg).utf8ByteSize then .error (.tooLarge (marshal msg).utf8ByteSize) else .ok (msg, rest) := by
  have hlength : (frame msg ++ rest).length = 4 + (marshal msg).utf8ByteSize + rest.length := by
    rw [List.length_append, frame, List.length_append, length_toLE, length_utf8]
  have hne : frame msg ++ rest ≠ [] := by
    intro hnil
    rw [hnil] at hlength
    simp at hlength
    omega
  have htake : (frame msg ++ rest).take 4 = toLE 4 (marshal msg).utf8ByteSize := by
    rw [frame, List.append_assoc, List.take_left' (length_toLE 4 _), length_utf8]
  have hdrop : (frame msg ++ rest).drop 4 = utf8 (marshal msg) ++ rest := by
    rw [frame, List.append_assoc, List.drop_left' (length_toLE 4 _)]
  have hvalue : ofLE ((frame msg ++ rest).take 4) = (marshal msg).utf8ByteSize := by
    rw [htake, ofLE_toLE, Nat.mod_eq_of_lt (by omega)]
  unfold readFrame
  dsimp only
  rw [if_neg hne, if_neg (by omega), hvalue, hdrop]
  split_ifs with hlimit hshort
  · rfl
  · rw [List.length_append, length_utf8] at hshort
    omega
  · rw [← length_utf8, List.take_left, unmarshal_marshal, List.drop_left]

/-- **A frame within the limit is read back**, whatever follows. -/
theorem readFrame_frame (h : (marshal msg).utf8ByteSize ≤ limit) :
    readFrame limit (frame msg ++ rest) = .ok (msg, rest) := by
  rw [readFrame_layout hword, if_neg (by omega)]

end

/-- **The agent takes a forwarded URL** exactly when its message is not longer than the agent's limit. -/
theorem receive_forwardURL {url : String} (hurl : url ≠ "") (hword : (marshal ⟨"url", url⟩).utf8ByteSize < 2 ^ 32) :
    receive (forwardURL url) = if (marshal ⟨"url", url⟩).utf8ByteSize ≤ 4096 then some url else none := by
  have hlayout := @readFrame_layout 4096 _ hword []
  rw [List.append_nil] at hlayout
  rw [receive, forwardURL, hlayout]
  split_ifs with hlimit hle hle
  · omega
  · rfl
  · exact if_pos ⟨rfl, hurl⟩
  · omega

/-- Messages of 1 MiB at most are all read, one after the other. -/
theorem messagesRead_frames {msgs : List Message} (h : ∀ msg ∈ msgs, (marshal msg).utf8ByteSize ≤ 1 <<< 20) :
    messagesRead (msgs.flatMap frame) = msgs := by
  induction msgs with
  | nil => exact messagesRead_of_error (e := .eof) rfl
  | cons msg msgs ih =>
      obtain ⟨hmsg, hmsgs⟩ := List.forall_mem_cons.mp h
      have hread : readMessage (frame msg ++ msgs.flatMap frame) = .ok (msg, msgs.flatMap frame) :=
        readFrame_frame (by omega) _ hmsg
      rw [List.flatMap_cons, messagesRead_of_ok hread, ih hmsgs]

/-! ## Lengths -/

theorem size_escapeHTML (c : Char) : ((Json.escapeHTML c).map Char.utf8Size).sum ≤ 6 := by
  have hletter : ∀ n < 16, (Json.hexDigit n).utf8Size = 1 := by decide
  unfold Json.escapeHTML
  split_ifs with hunsafe
  · have hall : Json.htmlUnsafe.all (fun c => decide (((Json.escapeHex c.toNat).map Char.utf8Size).sum ≤ 6)) = true := by
      decide
    exact of_decide_eq_true (List.all_eq_true.mp hall c hunsafe)
  · unfold Json.escape
    split
    · next e _ =>
        have hle := e.2.utf8Size_le_four
        have hslash : '\\'.utf8Size = 1 := by decide
        simp only [List.map_cons, List.map_nil, List.sum_cons, List.sum_nil, hslash]
        omega
    · split_ifs with hlow
      · have hfour : '\\'.utf8Size = 1 ∧ 'u'.utf8Size = 1 ∧ '0'.utf8Size = 1 := by decide
        simp only [List.map_cons, List.map_nil, List.sum_cons, List.sum_nil, hfour,
          hletter (c.toNat / 16) (by omega), hletter (c.toNat % 16) (by omega)]
        omega
      · have hle := c.utf8Size_le_four
        simp only [List.map_cons, List.map_nil, List.sum_cons, List.sum_nil]
        omega

/-- The size of a forwarded message: 23 bytes, and the URL as it is written. -/
theorem utf8ByteSize_marshal {url : String} (hurl : url ≠ "") : (marshal ⟨"url", url⟩).utf8ByteSize =
    23 + ((url.toList.flatMap Json.escapeHTML).map Char.utf8Size).sum := by
  have htext : Json.object [("type", Json.quoteHTML "url"), ("url", Json.quoteHTML url)] =
      "\x7b\"type\":\"url\",\"url\":\"".toList ++ url.toList.flatMap Json.escapeHTML ++ ['"', '}'] := by
    have htype : Json.field "type" (Json.quoteHTML "url") = "\"type\":\"url\"".toList := by decide
    have hkey : Json.quote "url" = "\"url\"".toList := by decide
    rw [Json.object, Json.moreFields, Json.moreFields, htype, Json.field, hkey, Json.quoteHTML]
    simp
  have hhead : ("\x7b\"type\":\"url\",\"url\":\"".toList.map Char.utf8Size).sum = 21 := by decide
  have htail : (['"', '}'].map Char.utf8Size).sum = 2 := by decide
  rw [marshal, if_neg hurl, utf8ByteSize_ofList, htext, List.map_append, List.map_append, List.sum_append,
    List.sum_append, hhead, htail]
  omega

theorem size_flatMap_escapeHTML (cs : Json.Text) :
    ((cs.flatMap Json.escapeHTML).map Char.utf8Size).sum ≤ 6 * cs.length := by
  induction cs with
  | nil => exact Nat.le_refl _
  | cons c cs ih =>
      have hle := size_escapeHTML c
      rw [List.flatMap_cons, List.map_append, List.sum_append, List.length_cons]
      omega

theorem length_of_stored {field value : String} {held : GoJson.Held} (h : stored field held = some value) :
    value.toList.length ≤ field.toList.length + held.size := by
  cases held with
  | string s =>
      cases h
      exact Nat.le_add_left _ _
  | null =>
      cases h
      exact Nat.le_add_right _ _
  | other => cases h

theorem Message.length_of_store {msg msg' : Message} {m : String × GoJson.Held} (h : msg.store m = some msg') :
    msg'.url.toList.length ≤ msg.url.toList.length + m.2.size := by
  unfold Message.store at h
  split_ifs at h
  · obtain ⟨type, -, rfl⟩ := Option.map_eq_some_iff.mp h
    exact Nat.le_add_right _ _
  · obtain ⟨url, hurl, rfl⟩ := Option.map_eq_some_iff.mp h
    exact length_of_stored hurl
  · cases h
    exact Nat.le_add_right _ _

theorem Message.length_of_foldlM {msg msg' : Message} {ms : List (String × GoJson.Held)}
    (h : ms.foldlM Message.store msg = some msg') :
    msg'.url.toList.length ≤ msg.url.toList.length + GoJson.size ms := by
  induction ms generalizing msg with
  | nil =>
      cases h
      exact Nat.le_add_right _ _
  | cons m ms ih =>
      obtain ⟨mid, hmid, hrest⟩ := Option.bind_eq_some_iff.mp h
      have hfirst := Message.length_of_store hmid
      have hlater := ih hrest
      rw [GoJson.size] at hlater ⊢
      rw [List.map_cons, List.sum_cons]
      omega

theorem length_of_unmarshal {data : Bytes} {msg : Message} (h : unmarshal data = some msg) :
    msg.url.toList.length ≤ data.length := by
  obtain ⟨ms, hms, hmsg⟩ := Option.bind_eq_some_iff.mp h
  have hurl := Message.length_of_foldlM hmsg
  have hsize := GoJson.size_of_members hms
  have hrunes := GoJson.length_runes 0 data
  have hempty : "".toList.length = 0 := rfl
  rw [GoJson.decodeRunes] at hsize
  dsimp only at hurl
  omega

theorem exists_data_of_mem_messagesRead {stdin : Bytes} {msg : Message} (h : msg ∈ messagesRead stdin) :
    ∃ data, data.length ≤ 1 <<< 20 ∧ unmarshal data = some msg := by
  induction stdin using messagesRead.induct with
  | case1 stdin _ herror =>
      rw [messagesRead_of_error herror] at h
      exact absurd h List.not_mem_nil
  | case2 stdin found rest hread ih =>
      rw [messagesRead_of_ok hread] at h
      obtain rfl | h := List.mem_cons.mp h
      · exact (length_of_readFrame hread).2
      · exact ih h

/-- What was read in 1 MiB can be written with a length of 32 bits. -/
theorem size_of_mem_forwardedURLs {stdin : Bytes} {url : String} (h : url ∈ forwardedURLs stdin) :
    url ≠ "" ∧ (marshal ⟨"url", url⟩).utf8ByteSize < 2 ^ 32 := by
  obtain ⟨msg, hmsg, hfound⟩ := List.mem_filterMap.mp h
  obtain ⟨data, hdata, hunmarshal⟩ := exists_data_of_mem_messagesRead hmsg
  have hlength := length_of_unmarshal hunmarshal
  split_ifs at hfound with hurl
  obtain rfl := Option.some.inj hfound
  have hsize := size_flatMap_escapeHTML msg.url.toList
  rw [utf8ByteSize_marshal hurl.2]
  exact ⟨hurl.2, by omega⟩

end TimeChamp.Agent.NativeHost
