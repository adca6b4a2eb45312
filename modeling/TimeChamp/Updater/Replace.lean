import TimeChamp.Updater.Update

/-!
# What the executable path holds during an update

One call of `CheckAndApply` may be interrupted after any effect, and any of its effects may fail.

* `Downloaded`, `Failed` : bytes that came with a signature that verifies, and that an error was returned;
* `Safe` : the path holds the old binary or a downloaded one, and the old one if an error was returned;
* `Exposed` : the binary was renamed away from the path, and none has been renamed to it since;
* `Mode`, `protocol`, `Holds` : how far the replacement has come, what it may do next and what the files are then;
* `safe_iff` : **at every point of every run it is safe exactly when it is not exposed**.
-/

namespace TimeChamp.Updater
open TimeChamp.Lib Program
open Function (update)

/-! ## Safety -/

/-- What was done, with the answers. -/
abbrev Trace := List (Performed Unit Op Op.Reply)

abbrev Updating := Lib.Config Unit Op Op.Reply World

/-- One goroutine, which is given no other job. -/
def updater : System Op Op.Reply World Choice Empty where
  exec := exec
  admits := fun j _ => nomatch j
  body := fun j => nomatch j

section Safety
variable (ec : EC) (p : Platform) (cfg : Config) (exe : String) (old : Bytes)

/-- The bytes verify with a signature that was got. -/
def Verified (got : List Bytes) (data : Bytes) : Prop :=
  data ∈ got ∧ ∃ sigHex ∈ got, verifyECDSA ec cfg.publicKeyPEM data (trimSpace sigHex) = .ok ()

/-- The bodies that were got. -/
def Trace.bodies (tr : Trace) : List Bytes :=
  tr.filterMap fun
    | (_, ⟨.httpGet _, .ok body⟩) => some body
    | _ => none

def Downloaded (data : Bytes) (tr : Trace) : Prop := Verified ec cfg tr.bodies data

/-- An error was returned, and logged. -/
def Failed (tr : Trace) : Prop := ∃ message, ((), ⟨.log message, ()⟩) ∈ tr

/-- The executable path holds a complete binary, and the old one if an error was returned. -/
structure Safe (c : Updating) : Prop where
  complete : c.world.files exe = some old ∨ ∃ data, c.world.files exe = some data ∧ Downloaded ec cfg data c.trace
  kept : Failed c.trace → c.world.files exe = some old

/-- An effect that was a rename to the path, or else from it. -/
def exposes (e : Bool) : Performed Unit Op Op.Reply → Bool
  | (_, ⟨.rename src dst, .ok _⟩) => if dst = exe then false else if src = exe then true else e
  | _ => e

/-- A rename from the path succeeded, and none to the path since. -/
def Exposed (tr : Trace) : Prop := tr.foldl (exposes exe) false = true

instance (tr : Trace) : Decidable (Exposed exe tr) := inferInstanceAs (Decidable (_ = true))

/-! ## The protocol -/

/-- How far the replacement is: the current binary in place and these bodies got; the new one staged; the current one
renamed to `.bak`; the new one installed; the new one not installed; an error returned. -/
inductive Mode where
  | intact (got : List Bytes)
  | staged (data : Bytes)
  | moved (data : Bytes)
  | installed (data : Bytes)
  | lost
  | ended

def Mode.next (m : Mode) : (op : Op) → op.Reply → Mode
  | .httpGet _, .ok body =>
    match m with
    | .intact got => .intact (got ++ [body])
    | m => m
  | .writeFile _ data, .ok _ => .staged data
  | .rename _ _, .ok _ =>
    match m with
    | .staged data => .moved data
    | .moved data => .installed data
    | _ => .intact []
  | .rename _ _, .error _ =>
    match m with
    | .staged _ => .intact []
    | _ => .lost
  | .log _, _ => .ended
  | _, _ => m

/-- The link is resolved to the path. -/
def Located : (op : Op) → op.Reply → Prop
  | .evalSymlinks _, .ok found => found = exe
  | _, _ => True

/-- What may be done in each mode. -/
def protocol : Protocol Op Op.Reply Mode where
  pre
    | .intact _, .latestRelease _ | .intact _, .httpGet _ | .intact _, .executable | .intact _, .evalSymlinks _ => True
    | .intact got, .writeFile path data => path = exe ++ ".update" ∧ Verified ec cfg got data
    | .intact _, .remove path => path = exe ++ ".update"
    | .intact _, .log _ | .lost, .log _ => True
    | .staged _, .rename src dst => src = exe ∧ dst = exe ++ ".bak"
    | .moved _, .rename src dst => src = exe ++ ".update" ∧ dst = exe
    | .lost, .rename src dst => src = exe ++ ".bak" ∧ dst = exe
    | .installed _, .remove path => path = exe ++ ".bak"
    | .installed _, .exit _ => True
    | _, _ => False
  post m op r m' := m' = m.next op r ∧ Located exe op r

/-- What a mode says of the files. -/
def Mode.Files (files : String → Option Bytes) (tr : Trace) : Mode → Prop
  | .intact got => files exe = some old ∧ got ⊆ tr.bodies
  | .staged data => files exe = some old ∧ files (exe ++ ".update") = some data ∧ Downloaded ec cfg data tr
  | .moved data => files exe = none ∧ files (exe ++ ".update") = some data ∧ files (exe ++ ".bak") = some old ∧
      Downloaded ec cfg data tr
  | .installed data => files exe = some data ∧ Downloaded ec cfg data tr
  | .lost => files exe = none ∧ files (exe ++ ".bak") = some old
  | .ended => files exe = some old ∨ files exe = none

structure Holds (w : World) (tr : Trace) (m : Mode) : Prop where
  path : w.exePath = exe
  gone : w.files exe = none ↔ Exposed exe tr
  failed : Failed tr → m = .ended
  files : m.Files ec cfg exe old w.files tr

end Safety

/-! ## The program follows the protocol -/

section Follows
variable {ec : EC} {p : Platform} {cfg : Config} {exe : String} {got : List Bytes}

/-- An error is returned with the current binary in place, or not installed. -/
def Returns (m : Mode) (result : Except String Unit) : Prop :=
  ∀ e, result = .error e → (∃ got, m = .intact got) ∨ m = .lost

theorem returns_intact (result : Except String Unit) : Returns (.intact got) result :=
  fun _ _ => Or.inl ⟨got, rfl⟩

theorem follows_replace {data : Bytes} (hdata : Verified ec cfg got data) :
    Follows (protocol ec cfg exe) Returns (.intact got) (replace exe data) := by
  refine follows_perform_bind.mpr ⟨⟨rfl, hdata⟩, fun written m hm => ?_⟩
  obtain rfl := hm.1
  cases written with
  | error e => exact returns_intact _
  | ok _ =>
      refine follows_perform_bind.mpr ⟨⟨rfl, rfl⟩, fun moved m hm => ?_⟩
      obtain rfl := hm.1
      cases moved with
      | error e =>
          refine follows_perform_bind.mpr ⟨rfl, fun removed m hm => ?_⟩
          obtain rfl := hm.1
          exact returns_intact _
      | ok _ =>
          refine follows_perform_bind.mpr ⟨⟨rfl, rfl⟩, fun installed m hm => ?_⟩
          obtain rfl := hm.1
          cases installed with
          | error e =>
              refine follows_perform_bind.mpr ⟨⟨rfl, rfl⟩, fun back m hm => ?_⟩
              obtain rfl := hm.1
              cases back with
              | error e => exact fun _ _ => Or.inr rfl
              | ok _ => exact returns_intact _
          | ok _ =>
              refine follows_perform_bind.mpr ⟨rfl, fun removed m hm => ?_⟩
              obtain rfl := hm.1
              refine follows_perform_bind.mpr ⟨trivial, fun _ m _ e h => ?_⟩
              cases h

theorem follows_read {α : Type} {Q : Mode → α → Prop} {op : Op} {f : op.Reply → Program α}
    (hpre : (protocol ec cfg exe).pre (.intact got) op)
    (hf : ∀ r, Located exe op r → Follows (protocol ec cfg exe) Q ((Mode.intact got).next op r) (f r)) :
    Follows (protocol ec cfg exe) Q (.intact got) (Prog.perform op >>= f) := by
  refine follows_perform_bind.mpr ⟨hpre, fun r m hm => ?_⟩
  rw [hm.1]
  exact hf r hm.2

theorem follows_fetchLatestRelease {repo currentVersion : String} :
    Follows (protocol ec cfg exe) (fun m _ => m = .intact got) (.intact got)
      (fetchLatestRelease p repo currentVersion) := by
  refine follows_read trivial fun release _ => ?_
  cases release with
  | error e => rfl
  | ok rel => rfl

theorem follows_checkAndApply : Follows (protocol ec cfg exe) Returns (.intact []) (checkAndApply ec p cfg) := by
  apply follows_fetchLatestRelease.bind
  intro m chosen hm
  subst hm
  rcases chosen with e | ⟨latest, assetURL, sigURL⟩
  · exact returns_intact _
  · dsimp only
    split_ifs
    · exact returns_intact _
    · refine follows_read trivial fun asset _ => ?_
      cases asset with
      | error e => exact returns_intact _
      | ok assetBytes =>
          refine follows_read trivial fun sig _ => ?_
          cases sig with
          | error e => exact returns_intact _
          | ok sigHex =>
              show Follows _ _ (Mode.intact ([] ++ [assetBytes] ++ [sigHex])) _
              dsimp only
              split
              next => exact returns_intact _
              next hverify =>
                refine follows_read trivial fun found _ => ?_
                cases found with
                | error e => exact returns_intact _
                | ok path =>
                    refine follows_read trivial fun target htarget => ?_
                    cases target with
                    | error e => exact returns_intact _
                    | ok path' =>
                        obtain rfl : path' = exe := htarget
                        exact follows_replace ⟨by simp, sigHex, by simp, hverify⟩

theorem follows_autoUpdate :
    Follows (protocol ec cfg exe) (fun _ _ => True) (.intact []) (autoUpdate ec p cfg) := by
  apply follows_checkAndApply.bind
  intro m result hm
  cases result with
  | ok _ => trivial
  | error e =>
      rcases hm e rfl with ⟨got, rfl⟩ | rfl
      · exact follows_perform_bind.mpr ⟨trivial, fun _ _ _ => trivial⟩
      · exact follows_perform_bind.mpr ⟨trivial, fun _ _ _ => trivial⟩

end Follows

/-! ## One effect -/

section Trace
variable {ec : EC} {cfg : Config} {exe : String} {tr : Trace} {x : Performed Unit Op Op.Reply} {data : Bytes}

theorem exposed_concat : Exposed exe (tr ++ [x]) ↔ exposes exe (tr.foldl (exposes exe) false) x = true := by
  unfold Exposed
  rw [List.foldl_append]
  rfl

theorem bodies_concat (tr : Trace) (x : Performed Unit Op Op.Reply) : tr.bodies ⊆ Trace.bodies (tr ++ [x]) := by
  unfold Trace.bodies
  rw [List.filterMap_append]
  exact List.subset_append_left _ _

theorem Verified.mono {got got' : List Bytes} (h : Verified ec cfg got data) (hsub : got ⊆ got') :
    Verified ec cfg got' data := by
  obtain ⟨hdata, sigHex, hsig, hverify⟩ := h
  exact ⟨hsub hdata, sigHex, hsub hsig, hverify⟩

theorem Downloaded.concat (h : Downloaded ec cfg data tr) : Downloaded ec cfg data (tr ++ [x]) :=
  Verified.mono h (bodies_concat tr x)

/-- Neither a rename nor a log. -/
def Op.quiet : Op → Bool
  | .rename _ _ | .log _ => false
  | _ => true

theorem exposes_of_quiet {op : Op} {r : op.Reply} (h : op.quiet = true) (e : Bool) :
    exposes exe e ((), ⟨op, r⟩) = e := by
  cases op with
  | rename _ _ => simp [Op.quiet] at h
  | _ => rfl

theorem ne_log_of_quiet {op : Op} {r : op.Reply} (h : op.quiet = true) (message : String) :
    (((), ⟨op, r⟩) : Performed Unit Op Op.Reply) ≠ ((), ⟨.log message, ()⟩) := by
  cases op with
  | log _ => simp [Op.quiet] at h
  | _ => simp

theorem failed_concat (h : Failed (tr ++ [x])) : Failed tr ∨ ∃ message, x = ((), ⟨.log message, ()⟩) := by
  obtain ⟨message, hmem⟩ := h
  rcases List.mem_append.mp hmem with hmem | hmem
  · exact Or.inl ⟨message, hmem⟩
  · exact Or.inr ⟨message, (List.mem_singleton.mp hmem).symm⟩

end Trace

section Files
variable {w : World} {path : String} {data : Option Bytes}

@[simp] theorem World.set_exePath : (w.set path data).exePath = w.exePath := rfl

@[simp] theorem World.set_files_self : (w.set path data).files path = data := if_pos rfl

theorem World.set_files_ne {other : String} (h : other ≠ path) : (w.set path data).files other = w.files other :=
  if_neg h

/-- The paths of the current, the staged and the backed up binary differ. -/
theorem update_ne (exe : String) : exe ++ ".update" ≠ exe := by
  intro h
  have hlength := congrArg String.length h
  simp at hlength

theorem bak_ne (exe : String) : exe ++ ".bak" ≠ exe := by
  intro h
  have hlength := congrArg String.length h
  simp at hlength

theorem update_ne_bak (exe : String) : exe ++ ".update" ≠ exe ++ ".bak" := by
  intro h
  have hlength := congrArg String.length h
  rw [String.length_append, String.length_append, Nat.add_left_cancel_iff] at hlength
  exact absurd hlength (by decide)

/-- How a rename ends when the file is there. -/
theorem exec_rename {ch : Choice} {src dst : String} {content : Bytes} (hsrc : w.files src = some content)
    {r : Except String Unit} {w' : World} (h : exec ch (.rename src dst) w = some (r, w')) :
    r = .ok () ∧ w' = (w.set src none).set dst (some content) ∨ (∃ e, r = .error e) ∧ w' = w := by
  simp only [exec, World.rename, hsrc] at h
  split at h
  all_goals cases h
  · exact Or.inl ⟨rfl, rfl⟩
  · exact Or.inr ⟨⟨_, rfl⟩, rfl⟩
  · exact Or.inr ⟨⟨_, rfl⟩, rfl⟩

end Files

section Step
variable {ec : EC} {cfg : Config} {exe : String} {old : Bytes} {w w' : World} {tr : Trace} {m : Mode} {ch : Choice}

theorem Mode.Files.concat {files : String → Option Bytes} (h : m.Files ec cfg exe old files tr)
    (x : Performed Unit Op Op.Reply) : m.Files ec cfg exe old files (tr ++ [x]) := by
  cases m with
  | intact got => exact ⟨h.1, List.Subset.trans h.2 (bodies_concat tr x)⟩
  | staged data => exact ⟨h.1, h.2.1, h.2.2.concat⟩
  | moved data => exact ⟨h.1, h.2.1, h.2.2.1, h.2.2.2.concat⟩
  | installed data => exact ⟨h.1, h.2.concat⟩
  | lost => exact h
  | ended => exact h

theorem Holds.quiet {op : Op} {r : op.Reply} {m' : Mode} (h : Holds ec cfg exe old w tr m) (hop : op.quiet = true)
    (hm : m ≠ .ended) (hpath : w'.exePath = w.exePath) (hexe : w'.files exe = w.files exe)
    (hfiles : m'.Files ec cfg exe old w'.files (tr ++ [((), ⟨op, r⟩)])) :
    Holds ec cfg exe old w' (tr ++ [((), ⟨op, r⟩)]) m' where
  path := hpath.trans h.path
  gone := by
    rw [hexe, h.gone, exposed_concat, exposes_of_quiet hop]
    rfl
  failed hfailed := by
    rcases failed_concat hfailed with hfailed | ⟨message, hx⟩
    · exact absurd (h.failed hfailed) hm
    · exact absurd hx (ne_log_of_quiet hop message)
  files := hfiles

theorem Holds.read {op : Op} {r : op.Reply} (h : Holds ec cfg exe old w tr m) (hop : op.quiet = true)
    (hm : m ≠ .ended) : Holds ec cfg exe old w (tr ++ [((), ⟨op, r⟩)]) m :=
  h.quiet hop hm rfl rfl (h.files.concat _)

theorem Holds.httpGet {got : List Bytes} {url : String} {r : Except String Bytes}
    (h : Holds ec cfg exe old w tr (.intact got)) :
    Holds ec cfg exe old w (tr ++ [((), ⟨.httpGet url, r⟩)]) ((Mode.intact got).next (.httpGet url) r) := by
  cases r with
  | error e => exact h.read rfl (by simp)
  | ok body =>
      refine h.quiet rfl (by simp) rfl rfl ⟨h.files.1, ?_⟩
      have hbodies : Trace.bodies (tr ++ [((), ⟨.httpGet url, .ok body⟩)]) = tr.bodies ++ [body] := by
        unfold Trace.bodies
        rw [List.filterMap_append]
        rfl
      rw [hbodies]
      exact List.append_subset.mpr ⟨List.subset_append_of_subset_left _ h.files.2, List.subset_append_right _ _⟩

theorem Holds.writeFile {got : List Bytes} {data : Bytes} {r : Except String Unit}
    (h : Holds ec cfg exe old w tr (.intact got)) (hdata : Verified ec cfg got data)
    (hexec : exec ch (.writeFile (exe ++ ".update") data) w = some (r, w')) :
    Holds ec cfg exe old w' (tr ++ [((), ⟨.writeFile (exe ++ ".update") data, r⟩)])
      ((Mode.intact got).next (.writeFile (exe ++ ".update") data) r) := by
  have hexe : ∀ content, (w.set (exe ++ ".update") content).files exe = w.files exe := fun _ =>
    World.set_files_ne (update_ne exe).symm
  have hdownloaded : ∀ x, Downloaded ec cfg data (tr ++ [x]) := fun x =>
    (hdata.mono h.files.2).mono (bodies_concat tr x)
  simp only [exec] at hexec
  split at hexec
  all_goals obtain ⟨rfl, rfl⟩ := Prod.mk.inj (Option.some.inj hexec)
  · exact h.quiet rfl (by simp) rfl (hexe _)
      ⟨(hexe _).trans h.files.1, World.set_files_self, hdownloaded _⟩
  · exact h.read rfl (by simp)
  · exact h.quiet rfl (by simp) rfl (hexe _)
      ⟨(hexe _).trans h.files.1, List.Subset.trans h.files.2 (bodies_concat tr _)⟩

theorem Holds.remove {path : String} {r : Except String Unit} (h : Holds ec cfg exe old w tr m)
    (hpath : path ≠ exe) (hm : (∃ got, m = .intact got) ∨ ∃ data, m = .installed data)
    (hexec : exec ch (.remove path) w = some (r, w')) :
    Holds ec cfg exe old w' (tr ++ [((), ⟨.remove path, r⟩)]) m := by
  have hne : m ≠ .ended := by
    rintro rfl
    rcases hm with ⟨_, hm⟩ | ⟨_, hm⟩ <;> cases hm
  have hexe : (w.set path none).files exe = w.files exe := World.set_files_ne hpath.symm
  simp only [exec] at hexec
  split at hexec
  all_goals obtain ⟨rfl, rfl⟩ := Prod.mk.inj (Option.some.inj hexec)
  · refine h.quiet rfl hne rfl hexe ?_
    rcases hm with ⟨got, rfl⟩ | ⟨data, rfl⟩
    · exact ⟨hexe.trans h.files.1, List.Subset.trans h.files.2 (bodies_concat tr _)⟩
    · exact ⟨hexe.trans h.files.1, h.files.2.concat⟩
  all_goals exact h.read rfl hne

/-- A rename of a file that is there: the file moves, and the path is exposed or covered, or nothing happens. -/
theorem Holds.rename {src dst : String} {content : Bytes} {r : Except String Unit} (h : Holds ec cfg exe old w tr m)
    (hm : m ≠ .ended) (hsrc : w.files src = some content) (hexec : exec ch (.rename src dst) w = some (r, w'))
    (hgone : ((w.set src none).set dst (some content)).files exe = none ↔
      exposes exe (tr.foldl (exposes exe) false) ((), ⟨.rename src dst, .ok ()⟩) = true)
    (hok : (m.next (.rename src dst) (.ok ())).Files ec cfg exe old ((w.set src none).set dst (some content)).files tr)
    (herror : ∀ e, (m.next (.rename src dst) (.error e)).Files ec cfg exe old w.files tr) :
    Holds ec cfg exe old w' (tr ++ [((), ⟨.rename src dst, r⟩)]) (m.next (.rename src dst) r) := by
  have hfailed : ∀ r m', Failed (tr ++ [((), ⟨.rename src dst, r⟩)]) → m' = Mode.ended := by
    intro r m' hf
    rcases failed_concat hf with hf | ⟨_, hx⟩
    · exact absurd (h.failed hf) hm
    · cases hx
  rcases exec_rename hsrc hexec with ⟨rfl, rfl⟩ | ⟨⟨e, rfl⟩, rfl⟩
  · exact ⟨h.path, hgone.trans exposed_concat.symm, hfailed _ _, hok.concat _⟩
  · refine ⟨h.path, ?_, hfailed _ _, (herror e).concat _⟩
    rw [h.gone, exposed_concat]
    rfl

theorem Holds.backup {data : Bytes} {r : Except String Unit} (h : Holds ec cfg exe old w tr (.staged data))
    (hexec : exec ch (.rename exe (exe ++ ".bak")) w = some (r, w')) :
    Holds ec cfg exe old w' (tr ++ [((), ⟨.rename exe (exe ++ ".bak"), r⟩)])
      ((Mode.staged data).next (.rename exe (exe ++ ".bak")) r) := by
  obtain ⟨hexe, hstage, hdownloaded⟩ := h.files
  have hnone : ((w.set exe none).set (exe ++ ".bak") (some old)).files exe = none := by
    rw [World.set_files_ne (bak_ne exe).symm, World.set_files_self]
  refine h.rename (by simp) hexe hexec ?_ ⟨hnone, ?_, World.set_files_self, hdownloaded⟩
    fun _ => ⟨hexe, List.nil_subset _⟩
  · simp only [hnone, exposes, if_neg (bak_ne exe), if_true]
  · rw [World.set_files_ne (update_ne_bak exe), World.set_files_ne (update_ne exe)]
    exact hstage

/-- The staged binary is renamed to the path, from which the current one is gone. -/
theorem Holds.install {data : Bytes} {r : Except String Unit} (h : Holds ec cfg exe old w tr (.moved data))
    (hexec : exec ch (.rename (exe ++ ".update") exe) w = some (r, w')) :
    Holds ec cfg exe old w' (tr ++ [((), ⟨.rename (exe ++ ".update") exe, r⟩)])
      ((Mode.moved data).next (.rename (exe ++ ".update") exe) r) := by
  obtain ⟨hexe, hstage, hbak, hdownloaded⟩ := h.files
  refine h.rename (by simp) hstage hexec ?_ ⟨World.set_files_self, hdownloaded⟩ fun _ => ⟨hexe, hbak⟩
  simp [exposes]

theorem Holds.rollback {r : Except String Unit} (h : Holds ec cfg exe old w tr .lost)
    (hexec : exec ch (.rename (exe ++ ".bak") exe) w = some (r, w')) :
    Holds ec cfg exe old w' (tr ++ [((), ⟨.rename (exe ++ ".bak") exe, r⟩)])
      (Mode.lost.next (.rename (exe ++ ".bak") exe) r) := by
  obtain ⟨hexe, hbak⟩ := h.files
  refine h.rename (by simp) hbak hexec ?_ ⟨World.set_files_self, List.nil_subset _⟩ fun _ => ⟨hexe, hbak⟩
  simp [exposes]

theorem Holds.log {message : String} (h : Holds ec cfg exe old w tr m) (hm : (∃ got, m = .intact got) ∨ m = .lost) :
    Holds ec cfg exe old w (tr ++ [((), ⟨.log message, ()⟩)]) .ended where
  path := h.path
  gone := by
    rw [h.gone, exposed_concat]
    rfl
  failed _ := rfl
  files := by
    rcases hm with ⟨got, rfl⟩ | rfl
    · exact Or.inl h.files.1
    · exact Or.inr h.files.1

/-- **One effect.** What is permitted in a mode leads to the files of the next. -/
theorem Holds.step {op : Op} {r : op.Reply} (h : Holds ec cfg exe old w tr m) (hpre : (protocol ec cfg exe).pre m op)
    (hexec : exec ch op w = some (r, w')) :
    Holds ec cfg exe old w' (tr ++ [((), ⟨op, r⟩)]) (m.next op r) := by
  cases m with
  | intact got =>
      cases op with
      | httpGet url =>
          cases hexec
          exact h.httpGet
      | writeFile path data =>
          obtain ⟨rfl, hdata⟩ := hpre
          exact h.writeFile hdata hexec
      | remove path =>
          obtain rfl : path = exe ++ ".update" := hpre
          exact h.remove (update_ne exe) (Or.inl ⟨got, rfl⟩) hexec
      | log message =>
          cases hexec
          exact h.log (Or.inl ⟨got, rfl⟩)
      | evalSymlinks path =>
          have hw : w' = w := by
            simp only [exec] at hexec
            split at hexec <;> cases hexec <;> rfl
          subst hw
          exact h.read rfl (by simp)
      | latestRelease url =>
          cases hexec
          exact h.read rfl (by simp)
      | executable =>
          cases hexec
          exact h.read rfl (by simp)
      | _ => exact hpre.elim
  | staged data =>
      cases op with
      | rename src dst =>
          obtain ⟨rfl, rfl⟩ := hpre
          exact h.backup hexec
      | _ => exact hpre.elim
  | moved data =>
      cases op with
      | rename src dst =>
          obtain ⟨rfl, rfl⟩ := hpre
          exact h.install hexec
      | _ => exact hpre.elim
  | installed data =>
      cases op with
      | remove path =>
          obtain rfl : path = exe ++ ".bak" := hpre
          exact h.remove (bak_ne exe) (Or.inr ⟨data, rfl⟩) hexec
      | exit code =>
          cases hexec
          exact h.read rfl (by simp)
      | _ => exact hpre.elim
  | lost =>
      cases op with
      | rename src dst =>
          obtain ⟨rfl, rfl⟩ := hpre
          exact h.rollback hexec
      | log message =>
          cases hexec
          exact h.log (Or.inr rfl)
      | _ => exact hpre.elim
  | ended => cases op <;> exact hpre.elim

theorem located_of_exec {op : Op} {r : op.Reply} (hpath : w.exePath = exe) (hexec : exec ch op w = some (r, w')) :
    Located exe op r := by
  cases op with
  | evalSymlinks path =>
      simp only [exec] at hexec
      split at hexec
      all_goals cases hexec
      · trivial
      · exact hpath
  | _ => trivial

/-- What the mode says is what is to be proved. -/
theorem Holds.safe_iff_not_exposed {c : Updating} (h : Holds ec cfg exe old c.world c.trace m) :
    Safe ec cfg exe old c ↔ ¬ Exposed exe c.trace := by
  constructor
  · intro hsafe hexposed
    have hnone := h.gone.mpr hexposed
    rcases hsafe.complete with hold | ⟨data, hdata, -⟩
    · rw [hnone] at hold
      cases hold
    · rw [hnone] at hdata
      cases hdata
  · intro hcovered
    have hsome : c.world.files exe ≠ none := fun hnone => hcovered (h.gone.mp hnone)
    have hfiles := h.files
    cases m with
    | intact got => exact ⟨Or.inl hfiles.1, fun _ => hfiles.1⟩
    | staged data => exact ⟨Or.inl hfiles.1, fun _ => hfiles.1⟩
    | moved data => exact absurd hfiles.1 hsome
    | installed data =>
        refine ⟨Or.inr ⟨data, hfiles⟩, fun hfailed => ?_⟩
        cases h.failed hfailed
    | lost => exact absurd hfiles.1 hsome
    | ended =>
        have hold := hfiles.resolve_right hsome
        exact ⟨Or.inl hold, fun _ => hold⟩

end Step

/-! ## Runs -/

/-- The files before the call, which has done nothing yet. -/
def before (ec : EC) (p : Platform) (cfg : Config) (w : World) : Updating := ⟨w, fun _ => autoUpdate ec p cfg, []⟩

section
variable {ec : EC} {p : Platform} {cfg : Config} {w : World} {old : Bytes} {c : Updating}

theorem holds_of_reaches (hold : w.files w.exePath = some old)
    (h : Reaches updater (fun _ _ => True) (before ec p cfg w) c) :
    ∃ m, Holds ec cfg w.exePath old c.world c.trace m := by
  have hrun : ∃ m : Unit → Mode, Holds ec cfg w.exePath old c.world c.trace (m ()) ∧
      ∀ i, Follows (protocol ec cfg w.exePath) (fun _ _ => True) (m i) (c.thread i) := by
    refine Reaches.inv (F := fun _ => True) (fun w' tr m => Holds ec cfg w.exePath old w' tr (m ())) ?_ ?_ ?_ h
    · refine ⟨fun _ => .intact [], ⟨rfl, ?_, ?_, hold, List.nil_subset _⟩, fun _ => follows_autoUpdate⟩
      · show w.files w.exePath = none ↔ false = true
        simp [hold]
      · rintro ⟨message, hmem⟩
        exact absurd hmem List.not_mem_nil
    · intro _ _ _ j
      exact nomatch j
    · intro c m i ch op k r w' hI _ _ hpre hexec
      refine ⟨(m i).next op r, ⟨rfl, located_of_exec hI.path hexec⟩, ?_⟩
      rw [Function.update_self]
      exact hI.step hpre hexec
  obtain ⟨m, hm, -⟩ := hrun
  exact ⟨m (), hm⟩

/-- **The path during an update.** From an executable that is there, at every point of every run the path holds a
complete binary, the old one if an error was returned, exactly when the path is not exposed. -/
theorem safe_iff (hold : w.files w.exePath = some old)
    (h : Reaches updater (fun _ _ => True) (before ec p cfg w) c) :
    Safe ec cfg w.exePath old c ↔ ¬ Exposed w.exePath c.trace := by
  obtain ⟨m, hm⟩ := holds_of_reaches hold h
  exact hm.safe_iff_not_exposed

end

/-! ## A signed release -/

/-- The key that the releases below are signed with, in the two forms of its file, and its point. -/
def releaseKey : String :=
  "-----BEGIN PUBLIC KEY-----\nMFkwEwYHKoZIzj0CAQYIKoZIzj0DAQcDQgAER+pTvTcH7UOsDyMPQCRqTueil8XK\n" ++
    "Wr94a2HHFTFqmJ56C9ra9Vu/IlOZJbBQCxI086nPps6bDS7+1mopf/HGpA==\n-----END PUBLIC KEY-----\n"

def releasePoint : Nat × Nat :=
  (0x47ea53bd3707ed43ac0f230f40246a4ee7a297c5ca5abf786b61c715316a989e,
    0x7a0bdadaf55bbf22539925b0500b1234f3a9cfa6ce9b0d2efed66a297ff1c6a4)

def releaseBlock : Bytes :=
  toBE 27 0x3059301306072a8648ce3d020106082a8648ce3d03010703420004 ++ toBE 32 releasePoint.1 ++ toBE 32 releasePoint.2

/-- A binary, its digest, and the signature of it. -/
def newBinary : Bytes := "MZnew".toList.map fun c => UInt8.ofNat c.toNat

def newDigest : Bytes := toBE 32 0x3b5898ef8a967103e54b43207ccb290c7a3e11490d3f6ea382244ec426780395

def newSignature : Nat × Nat :=
  (0x9fea9708848f5603a8615fe361ac36cd358ea096776a8828467c376a16dd25c0,
    0xed6387e8b2af2f8c46667cfb0a757cc69bc0118745795246588540403e8b81ec)

/-- The last `n` hexadecimal digits of a number, in ASCII. -/
def hexDigits (n x : Nat) : Bytes :=
  (List.range n).reverse.map fun i => UInt8.ofNat (Json.hexDigit (x / 16 ^ i % 16)).toNat

def newSigHex : Bytes := hexDigits 64 newSignature.1 ++ hexDigits 64 newSignature.2 ++ [10]

/-- What the library answers about that key, that binary and that signature. -/
def releaseEC : EC where
  PublicKey := Nat × Nat
  decode text := if text = releaseKey then some releaseBlock else none
  parsePKIXPublicKey block := if block = releaseBlock then .ok releasePoint else .error "asn1: structure error"
  isP256 _ := true
  sum256 data := if data = newBinary then newDigest else []
  verify key digest r s := key = releasePoint && digest = newDigest && r = newSignature.1 && s = newSignature.2

def releaseConfig : Config := ⟨"1.0.0", "timechamp/agent", releaseKey⟩

def windows : Platform := ⟨"windows", "amd64"⟩

def newRelease : GithubRelease :=
  ⟨"v1.1.0", [⟨"timechamp-agent-windows-amd64.exe", "https://github.com/a"⟩,
    ⟨"timechamp-agent-windows-amd64.exe.sig", "https://github.com/a.sig"⟩]⟩

def agentExe : String := "C:\\timechamp-agent.exe"

def oldBinary : Bytes := "MZold".toList.map fun c => UInt8.ofNat c.toNat

/-- Only the old binary is there. -/
def installed : World := ⟨agentExe, fun path => if path = agentExe then some oldBinary else none⟩

/-- The release is offered, this is the body of an answer, and a call on the file system ends like this. -/
def answering (body : Bytes) (fs : FsOutcome) : Act Unit Choice Empty :=
  .step () ⟨.ok newRelease, .ok body, .ok agentExe, fs⟩

/-- The release, the binary, the signature, where the executable is, and the staged file. -/
def download : List (Act Unit Choice Empty) :=
  [answering [] .ok, answering newBinary .ok, answering newSigHex .ok, answering [] .ok, answering [] .ok,
    answering [] .ok]

/-- All of it, to the exit. -/
def wholeUpdate : List (Act Unit Choice Empty) := download ++ List.replicate 4 (answering [] .ok)

theorem safe_iff_wholeUpdate :
    installed.files agentExe = some oldBinary ∧
      Safe releaseEC releaseConfig agentExe oldBinary
        (updater.endOf (before releaseEC windows releaseConfig installed) wholeUpdate) := by
  have hreaches := reaches_endOf (updater.allowed_true (before releaseEC windows releaseConfig installed) wholeUpdate)
    (by decide +kernel)
  exact ⟨by decide, (safe_iff (by decide) hreaches).mpr (by decide +kernel)⟩

/-- The machine stops once the current binary is renamed. -/
def interrupted : List (Act Unit Choice Empty) := download ++ [answering [] .ok]

/-- The executable is gone. -/
theorem not_safe_interrupted :
    ∃ c, Reaches updater (fun _ _ => True) (before releaseEC windows releaseConfig installed) c ∧
      installed.files agentExe = some oldBinary ∧ c.world.files agentExe = none ∧
      ¬ Safe releaseEC releaseConfig agentExe oldBinary c := by
  have hreaches := reaches_endOf (updater.allowed_true (before releaseEC windows releaseConfig installed) interrupted)
    (by decide +kernel)
  have hnone : (updater.endOf (before releaseEC windows releaseConfig installed) interrupted).world.files agentExe =
      none := by decide +kernel
  refine ⟨_, hreaches, by decide, hnone, fun hsafe => ?_⟩
  rcases hsafe.complete with hold | ⟨data, hdata, -⟩
  · rw [hnone] at hold
    cases hold
  · rw [hnone] at hdata
    cases hdata

end TimeChamp.Updater
