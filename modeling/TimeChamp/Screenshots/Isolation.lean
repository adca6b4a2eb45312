import Mathlib.Data.List.Induction
import TimeChamp.Screenshots.Storage

/-!
# Whose screenshots a dashboard sees

A screenshot is saved under the key that the request names, and its URL is sent to the dashboards of the organization
then and whenever they list it. Nothing compares the key with the one that was issued.

* `Monitor`, `Request`, `handle`, `run` : the rows and what was sent, and any requests one after the other;
* `Opens` : the object that a URL leads to, which is that of its key when the key is `Plain`; other keys may have dot
  segments, which a URL loses on its way;
* `Own`, `Foreign` : a key under the user's prefix, and a URL that leads to an object of another organization;
* `Isolated` : all rows are under the prefix of their user, and no dashboard was sent a foreign URL;
* `isolated_iff_ownKeys` : **it holds throughout, whatever the stores answer, exactly when every key that is saved is the
  user's own** and its URL does not lead elsewhere; `keepsOwn_issued` : the keys that were issued are so.
-/

namespace TimeChamp.Screenshots
open Lib

/-! ## Requests -/

/-- What the dashboards of an organization are sent when a screenshot was saved. -/
structure ScreenshotTaken where
  organizationId : Uuid
  userId : Uuid
  deviceId : Option Uuid
  screenshotId : Nat
  capturedAt : Int
  url : Url
deriving DecidableEq

structure ScreenshotWithUrl where
  id : Nat
  userId : Uuid
  capturedAt : Int
  fileSizeBytes : Nat
  url : Url

structure Query where
  userId : Option Uuid
  deviceId : Option Uuid
  capturedAt : Option (Int × Int)

/-- The rows, what was sent when they were saved, and what was listed for each organization. -/
structure Monitor where
  screenshots : Table Screenshot
  taken : List ScreenshotTaken
  listed : List (Uuid × List ScreenshotWithUrl)

def Monitor.start : Monitor := ⟨Table.empty, [], []⟩

/-- The row of a request is saved and its URL is sent, an empty one when the store does not sign it. -/
def saveScreenshot (service : AgentService) (user : User) (dto : SyncScreenshotDto) (deviceId : Option Uuid)
    (answers : Screenshot → SignReply) (m : Monitor) : Monitor :=
  match dto.row user deviceId with
  | none => m
  | some row =>
    { m with
      screenshots := m.screenshots.insert row
      taken := ⟨row.organizationId, row.userId, row.deviceId, m.screenshots.nextKey, row.capturedAt,
        (service.getPresignedDownloadUrl row.s3Key (answers row)).getD .empty⟩ :: m.taken }

def Query.matches (q : Query) (organizationId : Uuid) (row : Screenshot) : Bool :=
  row.organizationId = organizationId && q.userId.all (fun u => row.userId = u) &&
    q.deviceId.all (fun d => row.deviceId = some d) &&
    q.capturedAt.all fun range => range.1 ≤ row.capturedAt && row.capturedAt ≤ range.2

/-- The latest hundred rows of the organization that the query is for, with their URLs; `none` when one of them is not
signed. -/
def getScreenshots (service : AgentService) (organizationId : Uuid) (q : Query) (answers : Screenshot → SignReply)
    (rows : List Screenshot) : Option (List ScreenshotWithUrl) :=
  let shots := ((rows.filter (q.matches organizationId)).mergeSort fun a b => b.capturedAt ≤ a.capturedAt).take 100
  shots.mapM fun s => (service.getPresignedDownloadUrl s.s3Key (answers s)).map fun url =>
    ⟨s.id, s.userId, s.capturedAt, s.fileSizeBytes, url⟩

/-- A request of an agent or a dashboard, or rows that the maintenance removes. `inserted` when the database answers. -/
inductive Request where
  | save (user : User) (dto : SyncScreenshotDto) (deviceId : Option Uuid) (inserted : Bool)
  | list (organizationId : Uuid) (q : Query)
  | cleanup (ids : List Nat)

/-- What the store answers during a request, when the URL of a row is signed. -/
abbrev Answers := Screenshot → SignReply

def handle (service : AgentService) (answers : Answers) (m : Monitor) : Request → Monitor
  | .save user dto deviceId inserted => if inserted then saveScreenshot service user dto deviceId answers m else m
  | .list organizationId q =>
    match getScreenshots service organizationId q answers m.screenshots.rows with
    | none => m
    | some shots => { m with listed := (organizationId, shots) :: m.listed }
  | .cleanup ids => { m with screenshots := m.screenshots.removeKeys ids }

/-- The requests one after the other, with what the store answers during each. -/
def run (service : AgentService) (answers : Nat → Answers) (rs : List Request) : Monitor :=
  rs.zipIdx.foldl (fun m r => handle service (answers r.2) m r.1) Monitor.start

/-! ## What a URL opens -/

/-- Letters that stand for themselves in a URL. -/
def plainChar (c : Char) : Bool := c.isAlphanum || c = '-' || c = '_' || c = '.'

def PlainSegment (segment : List Char) : Prop :=
  segment.all plainChar = true ∧ segment ≠ [] ∧ segment ≠ ['.'] ∧ segment ≠ ['.', '.']

instance (segment : List Char) : Decidable (PlainSegment segment) := inferInstanceAs (Decidable (_ ∧ _))

/-- The key has no segment and no letter that a URL gives another meaning. -/
def Plain (key : String) : Prop :=
  ∃ segments, segments ≠ [] ∧ key.toList = ['/'].intercalate segments ∧ ∀ segment ∈ segments, PlainSegment segment

/-- The objects that URLs lead to, by their keys. Browsers and stores take the dot segments out of a path and decode it,
so the key of a URL names the object when it is plain. -/
structure Opens where
  object : Url → Option String
  empty : object .empty = none
  plain : ∀ {url : Url} {key : String}, url.key? = some key → Plain key → object url = some key

/-! ## Isolation -/

/-- The key is under the prefix that is issued to the user. -/
def Own (service : AgentService) (user : User) (key : String) : Prop :=
  ∃ p ∈ service.issuedPrefix user, p.toList <+: key.toList

/-- The URL leads to an object of another organization. -/
def Foreign (opens : Opens) (service : AgentService) (organizationId : Uuid) (url : Url) : Prop :=
  ∃ other, other ≠ organizationId ∧
    ∃ p ∈ service.organizationPrefix other, ∃ key ∈ opens.object url, p.toList <+: key.toList

structure Isolated (opens : Opens) (service : AgentService) (m : Monitor) : Prop where
  rows : ∀ row ∈ m.screenshots.rows, Own service ⟨row.userId, row.organizationId⟩ row.s3Key
  taken : ∀ t ∈ m.taken, ¬ Foreign opens service t.organizationId t.url
  listed : ∀ l ∈ m.listed, ∀ shot ∈ l.2, ¬ Foreign opens service l.1 shot.url

/-- The key is the user's own, and the URL that is made of it does not lead to another organization. -/
def Stays (opens : Opens) (service : AgentService) (user : User) (key : String) : Prop :=
  Own service user key ∧ ∀ url ∈ service.urlOf key, ¬ Foreign opens service user.organizationId url

/-- A key that the request saves stays in its place. -/
def KeepsOwn (opens : Opens) (service : AgentService) : Request → Prop
  | .save user dto deviceId true => ∀ row ∈ dto.row user deviceId, Stays opens service user row.s3Key
  | _ => True

section
variable {opens : Opens} {service : AgentService} {m : Monitor} {user : User} {key : String}

theorem exists_of_mem_mapM {α β : Type} {f : α → Option β} {as : List α} {bs : List β} (h : as.mapM f = some bs) {b : β}
    (hb : b ∈ bs) : ∃ a ∈ as, f a = some b := by
  induction as generalizing bs with
  | nil =>
      obtain rfl := Option.some.inj h
      exact absurd hb List.not_mem_nil
  | cons a as ih =>
      rw [List.mapM_cons] at h
      obtain ⟨b', hb', h⟩ := Option.bind_eq_some_iff.mp h
      obtain ⟨bs', hbs', h⟩ := Option.bind_eq_some_iff.mp h
      obtain rfl := Option.some.inj h
      rcases List.mem_cons.mp hb with rfl | hb
      · exact ⟨a, List.mem_cons_self, hb'⟩
      · obtain ⟨a', ha', hfa⟩ := ih hbs' hb
        exact ⟨a', List.mem_cons_of_mem _ ha', hfa⟩

/-- The prefixes of two organizations exclude each other. -/
theorem organization_of_own (hown : Own service user key) {other : Uuid} {p : String}
    (hp : service.organizationPrefix other = some p) (hstarts : p.toList <+: key.toList) :
    other = user.organizationId := by
  obtain ⟨p', hp', hstarts'⟩ := hown
  obtain ⟨_, -, rfl⟩ := Option.map_eq_some_iff.mp hp
  obtain ⟨_, -, rfl⟩ := Option.map_eq_some_iff.mp hp'
  obtain ⟨s, hs⟩ := hstarts
  obtain ⟨s', hs'⟩ := hstarts'
  have heq := hs.trans hs'.symm
  simp only [String.toList_append, List.append_assoc] at heq
  obtain ⟨horg, -⟩ := List.append_inj (List.append_cancel_left heq)
    (by rw [String.length_toList, String.length_toList, user.organizationId.length, other.length])
  exact Uuid.ext_text (String.toList_inj.mp horg)

/-- A plain key of the user's own stays in its place, however URLs are opened. -/
theorem stays_of_plain (hown : Own service user key) (hplain : Plain key) : Stays opens service user key := by
  refine ⟨hown, fun url hurl => ?_⟩
  rintro ⟨other, hne, p, hp, key', hkey', hstarts⟩
  obtain rfl := Option.some.inj ((opens.plain (key?_urlOf hurl) hplain).symm.trans hkey')
  exact hne (organization_of_own hown hp hstarts)

theorem Stays.not_foreign (h : Stays opens service user key) {reply : SignReply} {url : Url}
    (hurl : service.getPresignedDownloadUrl key reply = some url) :
    ¬ Foreign opens service user.organizationId url := by
  rcases getPresignedDownloadUrl_eq_some hurl with rfl | hurl
  · rintro ⟨_, -, _, -, key', hkey', -⟩
    rw [opens.empty] at hkey'
    exact nomatch hkey'
  · exact h.2 url hurl

/-! ### Runs -/

/-- What the invariant says of each row: its key stays in its place. -/
structure Kept (opens : Opens) (service : AgentService) (m : Monitor) : Prop where
  isolated : Isolated opens service m
  stays : ∀ row ∈ m.screenshots.rows, Stays opens service ⟨row.userId, row.organizationId⟩ row.s3Key

theorem kept_save (h : Kept opens service m) {dto : SyncScreenshotDto} {deviceId : Option Uuid}
    (hstays : ∀ row ∈ dto.row user deviceId, Stays opens service user row.s3Key) (answers : Answers) :
    Kept opens service (saveScreenshot service user dto deviceId answers m) := by
  unfold saveScreenshot
  cases hrow : dto.row user deviceId with
  | none => exact h
  | some row =>
      have hkey := hstays row hrow
      obtain ⟨-, huser, horg⟩ := row_eq_some hrow
      have hrows : ∀ r ∈ (m.screenshots.insert row).rows,
          Stays opens service ⟨r.userId, r.organizationId⟩ r.s3Key := by
        intro r hr
        rcases Table.mem_insert.mp hr with hr | rfl
        · exact h.stays r hr
        · show Stays opens service ⟨row.userId, row.organizationId⟩ row.s3Key
          rw [huser, horg]
          exact hkey
      refine ⟨⟨fun r hr => (hrows r hr).1, fun t ht => ?_, h.isolated.listed⟩, hrows⟩
      rcases List.mem_cons.mp ht with rfl | ht
      · dsimp only
        rw [horg]
        cases hurl : service.getPresignedDownloadUrl row.s3Key (answers row) with
        | none =>
            rintro ⟨_, -, _, -, key', hkey', -⟩
            rw [Option.getD_none, opens.empty] at hkey'
            exact nomatch hkey'
        | some url => exact hkey.not_foreign hurl
      · exact h.isolated.taken t ht

theorem kept_list (h : Kept opens service m) {organizationId : Uuid} {q : Query} {answers : Answers}
    {shots : List ScreenshotWithUrl}
    (hshots : getScreenshots service organizationId q answers m.screenshots.rows = some shots) :
    Kept opens service { m with listed := (organizationId, shots) :: m.listed } := by
  refine ⟨⟨h.isolated.rows, h.isolated.taken, fun l hl => ?_⟩, h.stays⟩
  rcases List.mem_cons.mp hl with rfl | hl
  · intro shot hshot
    obtain ⟨row, hrow, hsome⟩ := exists_of_mem_mapM hshots hshot
    obtain ⟨hmem, hmatch⟩ := List.mem_filter.mp (List.mem_mergeSort.mp (List.mem_of_mem_take hrow))
    obtain ⟨url, hurl, rfl⟩ := Option.map_eq_some_iff.mp hsome
    obtain rfl : row.organizationId = organizationId := by
      simp only [Query.matches, Bool.and_eq_true, decide_eq_true_eq] at hmatch
      exact hmatch.1.1.1
    exact (h.stays row hmem).not_foreign hurl
  · exact h.isolated.listed l hl

/-- **One request** keeps the isolation if the key it saves stays in its place. -/
theorem kept_handle (h : Kept opens service m) {r : Request} (hr : KeepsOwn opens service r) (answers : Answers) :
    Kept opens service (handle service answers m r) := by
  cases r with
  | save user dto deviceId inserted =>
      cases inserted with
      | false => exact h
      | true => exact kept_save h hr answers
  | list organizationId q =>
      simp only [handle]
      split
      next => exact h
      next shots hshots => exact kept_list h hshots
  | cleanup ids =>
      exact ⟨⟨fun row hrow => h.isolated.rows row (Table.mem_removeKeys.mp hrow).1, h.isolated.taken,
        h.isolated.listed⟩, fun row hrow => h.stays row (Table.mem_removeKeys.mp hrow).1⟩

/-- A row that is saved is there, and its URL was sent if the store signed it. -/
theorem keepsOwn_of_isolated {r : Request} (h : Isolated opens service (handle service (fun _ => .url) m r)) :
    KeepsOwn opens service r := by
  match r with
  | .save user dto deviceId true =>
      intro row hrow
      obtain ⟨-, huser, horg⟩ := row_eq_some hrow
      simp only [handle, saveScreenshot, if_true, Option.mem_def.mp hrow] at h
      constructor
      · have hown := h.rows _ (Table.mem_insert.mpr (Or.inr rfl))
        change Own service ⟨row.userId, row.organizationId⟩ row.s3Key at hown
        rw [huser, horg] at hown
        exact hown
      · intro url hurl
        have hsent := h.taken _ List.mem_cons_self
        rw [getPresignedDownloadUrl_url hurl, Option.getD_some, horg] at hsent
        exact hsent
  | .save _ _ _ false => trivial
  | .list _ _ => trivial
  | .cleanup _ => trivial

end

theorem run_concat (service : AgentService) (answers : Nat → Answers) (rs : List Request) (r : Request) :
    run service answers (rs ++ [r]) = handle service (answers rs.length) (run service answers rs) r := by
  rw [run, List.zipIdx_append, List.foldl_append, Nat.zero_add]
  rfl

theorem kept_run {opens : Opens} {service : AgentService} {rs : List Request} (h : ∀ r ∈ rs, KeepsOwn opens service r)
    (answers : Nat → Answers) : Kept opens service (run service answers rs) := by
  induction rs using List.reverseRecOn with
  | nil => exact ⟨⟨nofun, nofun, nofun⟩, nofun⟩
  | append_singleton rs r ih =>
      rw [run_concat]
      apply kept_handle
      · exact ih fun r' hr' => h r' (List.mem_append_left _ hr')
      · exact h r (List.mem_append_right _ (List.mem_singleton_self r))

/-- **Screenshots are isolated throughout a run**, whatever the store answers, exactly when every key that it saves is
under the prefix that was issued to the user who saves it and its URL does not lead to another organization. -/
theorem isolated_iff_ownKeys (opens : Opens) (service : AgentService) (rs : List Request) :
    (∀ answers n, Isolated opens service (run service answers (rs.take n))) ↔ ∀ r ∈ rs, KeepsOwn opens service r := by
  constructor
  · intro h r hr
    obtain ⟨before, after, rfl⟩ := List.append_of_mem hr
    have htake : (before ++ r :: after).take (before.length + 1) = before ++ [r] := by
      rw [List.take_append, List.take_of_length_le (Nat.le_succ _), Nat.add_sub_cancel_left]
      rfl
    have hstep := h (fun _ _ => .url) (before.length + 1)
    rw [htake, run_concat] at hstep
    exact keepsOwn_of_isolated hstep
  · intro h answers n
    exact (kept_run (fun r hr => h r (List.mem_of_mem_take hr)) answers).isolated

/-! ## Issued keys -/

/-- A year of four digits has no sign. -/
theorem ne_plus_of_mem {t : Int} (h : FourDigits (t / 86400000)) {c : Char} (hc : c ∈ toISOString t) : c ≠ '+' := by
  have hdigits : ∀ {w n}, c ∈ digits w n → c ≠ '+' := by
    rintro w n hmem rfl
    exact absurd (isDigit_of_mem_digits hmem) (by decide)
  simp only [toISOString, dateText, monthDayText, timeText, yearText, if_pos (year_of_fourDigits h), List.mem_append,
    List.mem_cons, List.not_mem_nil, or_false] at hc
  rcases hc with (hc | (rfl | hc) | rfl | hc) | (((((rfl | hc) | rfl | hc) | rfl | hc) | rfl | hc)) | rfl <;>
    first | exact hdigits hc | decide

theorem plainChar_dashed {c : Char} (h : isoChar c = true) (hne : c ≠ '+') : plainChar (dashed c) = true := by
  rw [isoChar, Bool.or_eq_true, List.contains_iff_mem] at h
  rcases h with h | h
  · rw [dashed_of_isDigit h]
    simp [plainChar, Char.isAlphanum, h]
  · simp only [List.mem_cons, List.not_mem_nil, or_false] at h
    rcases h with rfl | rfl | rfl | rfl | rfl | rfl
    · decide
    · exact absurd rfl hne
    all_goals decide

theorem plainSegment_timestamp {now : Int} (h : FourDigits (now / 86400000)) :
    PlainSegment (timestamp now ++ ".jpg").toList := by
  have hlast : (timestamp now ++ ".jpg").toList = (toISOString now).map dashed ++ ['.', 'j', 'p', 'g'] := by
    rw [String.toList_append, timestamp, String.toList_ofList]
    rfl
  rw [hlast]
  refine ⟨?_, by simp, fun heq => ?_, fun heq => ?_⟩
  · rw [List.all_append, Bool.and_eq_true, List.all_map, List.all_eq_true]
    exact ⟨fun c hc => plainChar_dashed (isoChar_of_mem hc) (ne_plus_of_mem h hc), by decide⟩
  · exact absurd (congrArg List.length heq) (by simp)
  · exact absurd (congrArg List.length heq) (by simp)

theorem plainChar_of_uuidChar {c : Char} (h : uuidChar c = true) : plainChar c = true := by
  simp only [uuidChar, Bool.or_eq_true, Bool.and_eq_true, decide_eq_true_eq] at h
  show ((c.isUpper || c.isLower) || c.isDigit || decide (c = '-') || decide (c = '_') || decide (c = '.')) = true
  rcases h with ((hdigit | hlower) | hupper) | hdash
  · simp only [hdigit, Bool.or_true, Bool.true_or]
  · have hletter : c.isLower = true :=
      Bool.and_eq_true_iff.mpr ⟨decide_eq_true hlower.1, decide_eq_true (UInt32.le_trans hlower.2 (by decide))⟩
    simp only [hletter, Bool.or_true, Bool.true_or]
  · have hletter : c.isUpper = true :=
      decide_eq_true (p := 'A'.val ≤ c.val ∧ c.val ≤ 'Z'.val) ⟨hupper.1, UInt32.le_trans hupper.2 (by decide)⟩
    simp only [hletter, Bool.true_or]
  · simp only [hdash, decide_true, Bool.or_true, Bool.true_or]

theorem plainSegment_uuid (u : Uuid) : PlainSegment u.text.toList := by
  have hlength : u.text.toList.length = 36 := by rw [String.length_toList, u.length]
  refine ⟨?_, ?_, ?_, ?_⟩
  · rw [List.all_eq_true]
    exact fun c hc => plainChar_of_uuidChar (List.all_eq_true.mp u.chars c hc)
  all_goals
    rintro heq
    rw [heq] at hlength
    exact absurd hlength (by decide)

/-- **The keys that are issued are plain**, up to the year 9999. -/
theorem plain_issued (service : AgentService) (user : User) {now : Int} (h : FourDigits (now / 86400000)) :
    Plain (service.folder ++ screenshotKey user now) := by
  have hkey : (screenshotKey user now).toList = ['/'].intercalate
      [user.organizationId.text.toList, user.id.text.toList, (timestamp now ++ ".jpg").toList] := by
    simp [screenshotKey, List.intercalate, List.intersperse]
  have hsegments : ∀ segment ∈ [user.organizationId.text.toList, user.id.text.toList, (timestamp now ++ ".jpg").toList],
      PlainSegment segment := by
    intro segment hmem
    simp only [List.mem_cons, List.not_mem_nil, or_false] at hmem
    rcases hmem with rfl | rfl | rfl
    · exact plainSegment_uuid _
    · exact plainSegment_uuid _
    · exact plainSegment_timestamp h
  unfold AgentService.folder
  split_ifs
  · exact ⟨_, by simp, (String.toList_append ..).trans hkey, hsegments⟩
  · refine ⟨"screenshots".toList :: _, by simp, ?_, List.forall_mem_cons.mpr ⟨by decide, hsegments⟩⟩
    rw [String.toList_append, hkey]
    rfl

/-- A client that saves what it was issued keeps it in its place. -/
theorem keepsOwn_issued (opens : Opens) {service : AgentService} {backend : Backend}
    (hbackend : service.uploadBackend = some backend) (user : User) {now : Int} (h : FourDigits (now / 86400000))
    (capturedAt : Option Int) (fileSizeBytes : Option Nat) (deviceId : Option Uuid) :
    KeepsOwn opens service
      (.save user ⟨some (service.folder ++ screenshotKey user now), capturedAt, fileSizeBytes⟩ deviceId true) := by
  intro row hrow
  obtain ⟨hkey, -, -⟩ := row_eq_some hrow
  rw [← Option.some.inj hkey]
  refine stays_of_plain ⟨_, Option.map_eq_some_iff.mpr ⟨backend, hbackend, rfl⟩, ?_⟩ (plain_issued service user h)
  simp [screenshotKey]

/-- They lie under the prefix of the user's organization. -/
theorem prefix_screenshotKey (service : AgentService) (user : User) (now : Int) :
    (service.folder ++ (user.organizationId.text ++ "/")).toList <+: (service.folder ++ screenshotKey user now).toList := by
  simp [screenshotKey]

section Runs

/-- Takes the dot segments out of a path. -/
def removeDotSegments (segments : List (List Char)) : List (List Char) :=
  segments.foldl (fun out segment =>
    if segment = ['.'] then out else if segment = ['.', '.'] then out.dropLast else out ++ [segment]) []

theorem removeDotSegments_plain {segments : List (List Char)} (h : ∀ segment ∈ segments, PlainSegment segment) :
    removeDotSegments segments = segments := by
  induction segments using List.reverseRecOn with
  | nil => rfl
  | append_singleton segments segment ih =>
      have hlast := h segment (List.mem_append_right _ (List.mem_singleton_self segment))
      rw [removeDotSegments, List.foldl_append, List.foldl_cons, List.foldl_nil, if_neg hlast.2.2.1,
        if_neg hlast.2.2.2]
      exact congrArg (· ++ [segment]) (ih fun s hs => h s (List.mem_append_left _ hs))

theorem not_mem_plainSegment {segment : List Char} (h : PlainSegment segment) : '/' ∉ segment := by
  intro hmem
  exact absurd (List.all_eq_true.mp h.1 _ hmem) (by decide)

/-- A URL leads to its key without the dot segments. -/
def opensPaths : Opens where
  object url := url.key?.map fun key =>
    String.ofList (['/'].intercalate (removeDotSegments (key.toList.splitOn '/')))
  empty := rfl
  plain := by
    rintro url key hkey ⟨segments, hne, htext, hplain⟩
    rw [hkey, Option.map_some, htext,
      List.splitOn_intercalate _ (fun s hs => not_mem_plainSegment (hplain s hs)) hne, removeDotSegments_plain hplain,
      ← htext, String.ofList_toList]

def eve : User := ⟨uuid "02" (by decide) (by decide), uuid "0e" (by decide) (by decide)⟩

theorem isolated_iff_ownKeys_issued (answers : Nat → Answers) (n : Nat) :
    Isolated opensPaths onSupabase (run onSupabase answers
      ([Request.save ann ⟨some (onSupabase.folder ++ screenshotKey ann 0), some 0, none⟩ none true,
        .list ann.organizationId ⟨none, none, none⟩].take n)) := by
  refine (isolated_iff_ownKeys opensPaths onSupabase _).mpr (fun r hr => ?_) answers n
  simp only [List.mem_cons, List.not_mem_nil, or_false] at hr
  rcases hr with rfl | rfl
  · exact keepsOwn_issued opensPaths rfl ann (by decide) _ _ _
  · trivial

/-- A screenshot of one organization is saved by the agent of a user of another. -/
def stolen : Request := .save eve ⟨some (screenshotKey ann 1775120400000), some 1775120400000, some 204800⟩ none true

theorem row_stolen : SyncScreenshotDto.row ⟨some (screenshotKey ann 1775120400000), some 1775120400000, some 204800⟩
    eve none = some ⟨0, eve.id, eve.organizationId, none, screenshotKey ann 1775120400000, 1775120400000, 204800⟩ := by
  decide +kernel

theorem not_isolated_stolen :
    ¬ ∀ (opens : Opens) (service : AgentService) (answers : Nat → Answers) (rs : List Request) (n : Nat),
      Isolated opens service (run service answers (rs.take n)) := by
  intro h
  have htaken := (h opensPaths onSupabase (fun _ _ => .url) [stolen] 1).taken
  simp only [List.take_succ_cons, List.take_nil, run, List.zipIdx_cons, List.zipIdx_nil, List.foldl_cons,
    List.foldl_nil, handle, stolen, if_true, saveScreenshot, row_stolen] at htaken
  refine htaken _ List.mem_cons_self ⟨ann.organizationId, by decide, _, rfl, screenshotKey ann 1775120400000, ?_, ?_⟩
  · exact opensPaths.plain rfl (plain_issued onSupabase ann (by decide))
  · exact prefix_screenshotKey onSupabase ann 1775120400000

/-- A bucket behind a CDN. -/
def behindCdn : AgentService := ⟨some ⟨none, "auto"⟩, some "screenshots", some "https://cdn.example.com", none⟩

/-- The segments of a key below the user's own prefix that climbs out of it. -/
def climbing : List (List Char) :=
  ["screenshots".toList, eve.organizationId.text.toList, eve.id.text.toList, "..".toList, "..".toList,
    ann.organizationId.text.toList, ann.id.text.toList, "0.jpg".toList]

/-- The user's own prefix is not enough: this URL opens another organization's screenshot. -/
theorem not_stays_climbing : Own behindCdn eve (String.ofList (['/'].intercalate climbing)) ∧
    ¬ Stays opensPaths behindCdn eve (String.ofList (['/'].intercalate climbing)) := by
  have hsplit : (['/'].intercalate climbing).splitOn '/' = climbing :=
    List.splitOn_intercalate _ (by decide +kernel) (List.cons_ne_nil _ _)
  refine ⟨⟨_, rfl, ?_⟩, fun h => h.2 _ rfl ⟨ann.organizationId, by decide, _, rfl, _, rfl, ?_⟩⟩
  · rw [String.toList_ofList]
    decide +kernel
  · rw [String.toList_ofList, String.toList_ofList, hsplit]
    decide +kernel

end Runs

end TimeChamp.Screenshots
