import TimeChamp.Lib.Texts
import TimeChamp.Lib.Table

/-!
# Where screenshots are kept

The service uploads, downloads and deletes screenshots in the stores that its environment configures, and each of the
three chooses the store by its own rule.

* `Env`, `AgentService.new` : what the constructor reads, and what it makes of it;
* `Backend` : Supabase, or a bucket behind an S3 client, which may be one of Backblaze B2;
* `generateUploadUrl`, `getPresignedDownloadUrl`, `deleteS3Object` : the three;
* `uploadBackend`, `issuedPrefix` : where an upload goes, and what its key begins with; `generateUploadUrl_eq_ok`;
* `screenshotKey_inj` : a key names an organization, a user and a millisecond;
* `issuedKeys_nodup_iff` : **the keys of some requests are distinct exactly when no two are of one user and millisecond**;
* `Screenshot`, `SyncScreenshotDto.row` : the rows, and the one that a request saves.
-/

namespace TimeChamp.Screenshots
open Lib

/-! ## Configuration -/

/-- The environment, as far as it decides about the stores. -/
structure Env where
  b2Bucket : Option String
  b2Endpoint : Option String
  b2CdnUrl : Option String
  s3Bucket : Option String
  s3Endpoint : Option String
  awsRegion : Option String
  supabaseUrl : Option String
  supabaseServiceKey : Option String

/-- An empty text is as good as none. -/
def truthy (text : Option String) : Option String := text.filter fun t => t ≠ ""

structure S3Client where
  endpoint : Option String
  region : String
deriving DecidableEq

structure AgentService where
  s3 : Option S3Client
  bucket : Option String
  cdnUrl : Option String
  supabase : Option String

def AgentService.new (env : Env) : AgentService :=
  let supabase := (truthy env.supabaseServiceKey).bind fun _ => truthy env.supabaseUrl
  match truthy env.b2Bucket, truthy env.s3Bucket with
  | some bucket, _ => ⟨some ⟨env.b2Endpoint, "auto"⟩, some bucket, truthy env.b2CdnUrl, supabase⟩
  | none, some bucket => ⟨some ⟨truthy env.s3Endpoint, env.awsRegion.getD "us-east-1"⟩, some bucket, none, supabase⟩
  | none, none => ⟨none, none, none, supabase⟩

/-- A store with a bucket in it. -/
inductive Backend where
  | supabase (url : String)
  | bucket (client : S3Client) (bucket : String)
deriving DecidableEq

/-- The bucket of the S3 client, if there is one. -/
def AgentService.s3Backend (service : AgentService) : Option Backend :=
  service.s3.bind fun client => service.bucket.map (Backend.bucket client)

/-- Where an upload goes. Supabase comes first. -/
def AgentService.uploadBackend (service : AgentService) : Option Backend :=
  (service.supabase.map Backend.supabase).or service.s3Backend

/-! ## Keys -/

structure User where
  id : Uuid
  organizationId : Uuid
deriving DecidableEq

/-- `replace(/[:.]/g, '-')`. -/
def dashed (c : Char) : Char := if c = ':' ∨ c = '.' then '-' else c

def timestamp (now : Int) : String := String.ofList ((toISOString now).map dashed)

def screenshotKey (user : User) (now : Int) : String :=
  user.organizationId.text ++ "/" ++ user.id.text ++ "/" ++ timestamp now ++ ".jpg"

example : timestamp 1709164800123 = "2024-02-29T00-00-00-123Z" := by decide +kernel

/-! ## URLs -/

/-- How a store answers when it is asked to sign a URL. -/
inductive SignReply where
  | url
  | noUrl
  | error (message : String)
  | thrown
deriving DecidableEq

/-- A URL: none, one that the store signed for a key, or a key behind the address of the CDN. -/
inductive Url where
  | empty
  | signed (backend : Backend) (key : String)
  | cdn (cdnUrl key : String)
deriving DecidableEq

/-- The key that a URL was made of. -/
def Url.key? : Url → Option String
  | empty => none
  | signed _ key => some key
  | cdn _ key => some key

structure UploadUrl where
  uploadUrl : Url
  screenshotKey : String

def notConfigured : String := "Screenshot storage is not configured (set SUPABASE_URL + SUPABASE_SERVICE_KEY)"

/-- The URL of an upload and its key, or the text of the error. `thrown` is an error of the store's client. -/
def AgentService.generateUploadUrl (service : AgentService) (user : User) (now : Int) (reply : SignReply) :
    Except String UploadUrl :=
  let key := screenshotKey user now
  match service.supabase, service.s3, service.bucket with
  | some url, _, _ =>
    match reply with
    | .url => .ok ⟨.signed (.supabase url) key, key⟩
    | .noUrl => .error "Supabase Storage returned empty upload URL"
    | .error message => .error ("Supabase Storage error: " ++ message)
    | .thrown => .error "thrown"
  | none, some client, some bucket =>
    match reply with
    | .url => .ok ⟨.signed (.bucket client bucket) ("screenshots/" ++ key), "screenshots/" ++ key⟩
    | _ => .error "thrown"
  | none, _, _ => .error notConfigured

/-- The URL of a download; `none` when the client of the store throws. -/
def AgentService.getPresignedDownloadUrl (service : AgentService) (s3Key : String) (reply : SignReply) : Option Url :=
  match service.supabase, service.s3, service.bucket with
  | some url, _, _ =>
    match reply with
    | .url => some (.signed (.supabase url) s3Key)
    | .noUrl | .error _ => some .empty
    | .thrown => none
  | none, some client, some bucket =>
    match service.cdnUrl with
    | some cdnUrl => some (.cdn cdnUrl s3Key)
    | none =>
      match reply with
      | .url => some (.signed (.bucket client bucket) s3Key)
      | _ => none
  | none, _, _ => some .empty

/-- The URL of a key that is signed, if need be. -/
def AgentService.urlOf (service : AgentService) (s3Key : String) : Option Url :=
  match service.supabase, service.s3, service.bucket with
  | some url, _, _ => some (.signed (.supabase url) s3Key)
  | none, some client, some bucket =>
    match service.cdnUrl with
    | some cdnUrl => some (.cdn cdnUrl s3Key)
    | none => some (.signed (.bucket client bucket) s3Key)
  | none, _, _ => none

theorem key?_urlOf {service : AgentService} {s3Key : String} {url : Url} (h : service.urlOf s3Key = some url) :
    url.key? = some s3Key := by
  unfold AgentService.urlOf at h
  split at h
  · cases h
    rfl
  · split at h <;> cases h <;> rfl
  · cases h

theorem getPresignedDownloadUrl_eq_some {service : AgentService} {s3Key : String} {reply : SignReply} {url : Url}
    (h : service.getPresignedDownloadUrl s3Key reply = some url) : url = .empty ∨ service.urlOf s3Key = some url := by
  obtain ⟨s3, bucket, cdnUrl, supabase⟩ := service
  cases supabase with
  | some _ =>
      cases reply <;> cases h
      · exact Or.inr rfl
      · exact Or.inl rfl
      · exact Or.inl rfl
  | none =>
      cases s3 <;> cases bucket
      case some.some client bucket =>
        cases cdnUrl with
        | some _ =>
            cases h
            exact Or.inr rfl
        | none =>
            cases reply <;> cases h
            exact Or.inr rfl
      all_goals exact Or.inl (Option.some.inj h).symm

theorem getPresignedDownloadUrl_url {service : AgentService} {s3Key : String} {url : Url}
    (h : service.urlOf s3Key = some url) : service.getPresignedDownloadUrl s3Key .url = some url := by
  obtain ⟨s3, bucket, cdnUrl, supabase⟩ := service
  cases supabase with
  | some _ => exact h
  | none =>
      cases s3 <;> cases bucket
      case some.some client bucket => cases cdnUrl <;> exact h
      all_goals cases h

/-- Where a deletion goes; it returns without one when there is no S3 client. -/
def AgentService.deleteS3Object (service : AgentService) (key : String) : Option (Backend × String) :=
  service.s3Backend.map fun backend => (backend, key)

/-! ## Issued keys -/

/-- What the keys begin with before the organization. -/
def AgentService.folder (service : AgentService) : String := if service.supabase.isSome then "" else "screenshots/"

/-- What all keys begin with that are issued to the users of an organization, and to one of them; `none` when no keys are
issued. -/
def AgentService.organizationPrefix (service : AgentService) (organizationId : Uuid) : Option String :=
  service.uploadBackend.map fun _ => service.folder ++ (organizationId.text ++ "/")

def AgentService.issuedPrefix (service : AgentService) (user : User) : Option String :=
  service.uploadBackend.map fun _ => service.folder ++ (user.organizationId.text ++ "/" ++ (user.id.text ++ "/"))

/-- **What an upload is given**: a URL in the store of uploads for the key that it is given too. -/
theorem generateUploadUrl_eq_ok {service : AgentService} {user : User} {now : Int} {reply : SignReply}
    {upload : UploadUrl} (h : service.generateUploadUrl user now reply = .ok upload) :
    ∃ backend, service.uploadBackend = some backend ∧ reply = .url ∧
      upload = ⟨.signed backend (service.folder ++ screenshotKey user now), service.folder ++ screenshotKey user now⟩ := by
  obtain ⟨s3, bucket, cdnUrl, supabase⟩ := service
  unfold AgentService.generateUploadUrl at h
  cases supabase with
  | some url =>
      cases reply <;> cases h
      refine ⟨_, rfl, rfl, ?_⟩
      simp [AgentService.folder]
  | none =>
      cases s3 <;> cases bucket <;> try cases h
      cases reply <;> cases h
      exact ⟨_, rfl, rfl, rfl⟩

theorem generateUploadUrl_url {service : AgentService} {backend : Backend} (h : service.uploadBackend = some backend)
    (user : User) (now : Int) : service.generateUploadUrl user now .url =
      .ok ⟨.signed backend (service.folder ++ screenshotKey user now), service.folder ++ screenshotKey user now⟩ := by
  obtain ⟨s3, bucket, cdnUrl, supabase⟩ := service
  cases supabase with
  | some url =>
      cases h
      simp [AgentService.generateUploadUrl, AgentService.folder]
  | none =>
      cases s3 <;> cases bucket <;> cases h
      rfl

/-! ## Keys are unique -/

theorem dashed_of_isDigit {c : Char} (h : c.isDigit = true) : dashed c = c := by
  unfold dashed
  apply if_neg
  rintro (rfl | rfl)
  · exact absurd h (by decide)
  · exact absurd h (by decide)

theorem map_dashed_digits (w n : Nat) : (digits w n).map dashed = digits w n := by
  rw [List.map_congr_left fun c hc => dashed_of_isDigit (isDigit_of_mem_digits hc), List.map_id']

theorem map_dashed_dateText (z : Int) : (dateText z).map dashed = dateText z := by
  have hyear : ∀ y, (yearText y).map dashed = yearText y := by
    intro y
    unfold yearText
    split_ifs
    · exact map_dashed_digits _ _
    · rw [List.map_cons, map_dashed_digits]
      rfl
    · rw [List.map_cons, map_dashed_digits]
      rfl
  have hmonthDay : ∀ d, (monthDayText d).map dashed = monthDayText d := by
    intro d
    simp only [monthDayText, List.map_append, List.map_cons, map_dashed_digits]
    rfl
  rw [dateText, List.map_append, hyear, hmonthDay]

theorem dashed_timeText_inj {a b : Nat} (ha : a < 86400000) (hb : b < 86400000)
    (h : (timeText a).map dashed = (timeText b).map dashed) : a = b := by
  simp only [timeText, List.map_append, List.map_cons, map_dashed_digits] at h
  obtain ⟨h, -⟩ := List.append_inj' h rfl
  obtain ⟨h, hms⟩ := List.append_inj' h (by simp)
  obtain ⟨h, hs⟩ := List.append_inj' h (by simp)
  obtain ⟨h, hmin⟩ := List.append_inj' h (by simp)
  have h1 := digits_inj (by omega) (by omega) (List.cons.inj h).2
  have h2 := digits_inj (by omega) (by omega) (List.cons.inj hmin).2
  have h3 := digits_inj (by omega) (by omega) (List.cons.inj hs).2
  have h4 := digits_inj (by omega) (by omega) (List.cons.inj hms).2
  omega

/-- The replaced letters are always at the same place, so the text still names the instant. -/
theorem timestamp_inj {now now' : Int} (h : ValidTime now) (h' : ValidTime now')
    (heq : timestamp now = timestamp now') : now = now' := by
  unfold ValidTime at h h'
  have hchars := String.ofList_injective heq
  rw [toISOString, toISOString, List.map_append, List.map_append, map_dashed_dateText, map_dashed_dateText] at hchars
  obtain ⟨hdate, htime⟩ := List.append_inj' hchars (by simp [length_timeText])
  have h1 := dateText_inj (by omega) (by omega) hdate
  have h2 := dashed_timeText_inj (by unfold msOfDay; omega) (by unfold msOfDay; omega) htime
  unfold msOfDay at h2
  omega

/-- **A key names one organization, user and millisecond.** -/
theorem screenshotKey_inj {user user' : User} {now now' : Int} (h : ValidTime now) (h' : ValidTime now')
    (heq : screenshotKey user now = screenshotKey user' now') : user = user' ∧ now = now' := by
  simp only [screenshotKey, String.append_assoc] at heq
  obtain ⟨horg, heq⟩ := append_inj_of_length (by rw [user.organizationId.length, user'.organizationId.length]) heq
  obtain ⟨-, heq⟩ := append_inj_of_length rfl heq
  obtain ⟨hid, heq⟩ := append_inj_of_length (by rw [user.id.length, user'.id.length]) heq
  obtain ⟨-, heq⟩ := append_inj_of_length rfl heq
  have hchars := congrArg String.toList heq
  rw [String.toList_append, String.toList_append] at hchars
  have htime := String.toList_inj.mp (List.append_inj' hchars rfl).1
  obtain ⟨id, organizationId⟩ := user
  obtain ⟨id', organizationId'⟩ := user'
  obtain rfl := Uuid.ext_text horg
  obtain rfl := Uuid.ext_text hid
  exact ⟨rfl, timestamp_inj h h' htime⟩

/-- A request for an upload, with the clock that it reads and the answer of the store. -/
structure UploadRequest where
  user : User
  now : Int
  reply : SignReply
  valid : ValidTime now

/-- The keys that are returned, in the order of the requests. -/
def issuedKeys (service : AgentService) (rs : List UploadRequest) : List String :=
  rs.filterMap fun r => (service.generateUploadUrl r.user r.now r.reply).toOption.map UploadUrl.screenshotKey

/-- The request returns a key: there is a store, and it signs the URL. -/
def UploadRequest.Answered (service : AgentService) (r : UploadRequest) : Prop :=
  service.uploadBackend.isSome = true ∧ r.reply = .url

theorem issuedKey_eq_some {service : AgentService} {r : UploadRequest} {key : String} :
    (service.generateUploadUrl r.user r.now r.reply).toOption.map UploadUrl.screenshotKey = some key ↔
      r.Answered service ∧ service.folder ++ screenshotKey r.user r.now = key := by
  constructor
  · intro h
    obtain ⟨upload, hupload, rfl⟩ := Option.map_eq_some_iff.mp h
    cases hok : service.generateUploadUrl r.user r.now r.reply with
    | error e =>
        rw [hok] at hupload
        exact nomatch hupload
    | ok upload' =>
        rw [hok] at hupload
        obtain rfl := Option.some.inj hupload
        obtain ⟨backend, hbackend, hreply, rfl⟩ := generateUploadUrl_eq_ok hok
        exact ⟨⟨Option.isSome_of_mem hbackend, hreply⟩, rfl⟩
  · rintro ⟨⟨hbackend, hreply⟩, rfl⟩
    obtain ⟨backend, hbackend⟩ := Option.isSome_iff_exists.mp hbackend
    rw [hreply, generateUploadUrl_url hbackend]
    rfl

/-- **The keys that are returned are distinct** exactly when no two requests that are answered are of one user in one
millisecond. -/
theorem issuedKeys_nodup_iff (service : AgentService) (rs : List UploadRequest) :
    (issuedKeys service rs).Nodup ↔
      rs.Pairwise fun r r' => r.Answered service → r'.Answered service → ¬ (r.user = r'.user ∧ r.now = r'.now) := by
  rw [issuedKeys, List.Nodup, List.pairwise_filterMap]
  refine iff_of_eq (congrArg (List.Pairwise · rs) (funext fun r => funext fun r' => propext ?_))
  simp only [issuedKey_eq_some]
  constructor
  · rintro h hr hr' ⟨huser, hnow⟩
    exact h _ ⟨hr, rfl⟩ _ ⟨hr', rfl⟩ (by rw [huser, hnow])
  · rintro h _ ⟨hr, rfl⟩ _ ⟨hr', rfl⟩ heq
    have hchars := congrArg String.toList heq
    rw [String.toList_append, String.toList_append] at hchars
    exact h hr hr' (screenshotKey_inj r.valid r'.valid (String.toList_inj.mp (List.append_cancel_left hchars)))

section Runs

/-- An id that ends in these two letters. -/
def uuid (last : String) (h : ("00000000-0000-4000-8000-0000000000" ++ last).length = 36)
    (h' : ("00000000-0000-4000-8000-0000000000" ++ last).toList.all uuidChar = true) : Uuid :=
  ⟨"00000000-0000-4000-8000-0000000000" ++ last, h, h'⟩

def ann : User := ⟨uuid "01" (by decide) (by decide), uuid "0a" (by decide) (by decide)⟩

def onSupabase : AgentService := ⟨none, none, none, some "https://project.supabase.co"⟩

/-- Two devices of one user ask in the same millisecond. -/
theorem not_issuedKeys_nodup :
    ¬ ∀ (service : AgentService) (rs : List UploadRequest), rs.Pairwise (fun r r' => r.now ≤ r'.now) →
      (issuedKeys service rs).Nodup := by
  intro h
  have hnodup := h onSupabase (List.replicate 2 ⟨ann, 1775120400000, .url, by decide⟩) (by simp)
  exact absurd hnodup (by decide +kernel)

end Runs

/-! ## Rows -/

structure Screenshot where
  id : Nat
  userId : Uuid
  organizationId : Uuid
  deviceId : Option Uuid
  s3Key : String
  capturedAt : Int
  fileSizeBytes : Nat
deriving DecidableEq

instance : Keyed Screenshot := ⟨Screenshot.id, fun id row => { row with id }, fun _ _ => rfl⟩

/-- What a request carries. The validator skips what is missing, and `capturedAt` is the instant that its text names. -/
structure SyncScreenshotDto where
  screenshotKey : Option String
  capturedAt : Option Int
  fileSizeBytes : Option Nat

/-- A text that a column of at most `n` letters takes. -/
def varchar (n : Nat) (text : String) : Bool := text.length ≤ n && !text.toList.contains (Char.ofNat 0)

/-- The row that a request saves; `none` when the table refuses it. -/
def SyncScreenshotDto.row (dto : SyncScreenshotDto) (user : User) (deviceId : Option Uuid) : Option Screenshot :=
  match dto.screenshotKey, dto.capturedAt with
  | some s3Key, some capturedAt =>
    let fileSizeBytes := dto.fileSizeBytes.getD 0
    if varchar 500 s3Key && fileSizeBytes < 2147483648 then
      some ⟨0, user.id, user.organizationId, deviceId, s3Key, capturedAt, fileSizeBytes⟩
    else none
  | _, _ => none

theorem row_eq_some {dto : SyncScreenshotDto} {user : User} {deviceId : Option Uuid} {row : Screenshot}
    (h : dto.row user deviceId = some row) :
    dto.screenshotKey = some row.s3Key ∧ row.userId = user.id ∧ row.organizationId = user.organizationId := by
  unfold SyncScreenshotDto.row at h
  split at h
  next s3Key capturedAt hkey _ =>
    dsimp only at h
    split_ifs at h
    cases h
    exact ⟨hkey, rfl, rfl⟩
  next => cases h

end TimeChamp.Screenshots
