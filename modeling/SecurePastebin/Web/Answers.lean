import SecurePastebin.System.Roundtrip
import SecurePastebin.System.Timeline
import SecurePastebin.Web.Content
import SecurePastebin.Web.Pastes
import SecurePastebin.Web.ViewGate

/-!
# What answers tell of a paste

A client learns of a paste by the members of an answer, by the code of an error or
by a text it downloads.  Whatever it learns is what a method of the paste service
has returned, so the answers to all clients together follow the paste's life: none
goes back to an earlier stage, and a text is handed out in the first one only.
-/

namespace SecurePastebin.Web

open Text Uuid Process Interleaving
open Crypto
open Paste (PasteMeta Status Principal CreateResult ReadResult VerifyResult Silent statusText)

/-! ## What a client reads -/

def member (name : String) : Json.Value → Option Json.Value
  | .object members => members.lookup (ascii name)
  | _ => none

def textOf : Json.Value → Option Bytes
  | .string text => some text
  | _ => none

/-- A member with a text. -/
def memberText (name : String) (value : Json.Value) : Option Bytes :=
  (member name value).bind textOf

def statusOf (text : Bytes) : Option Status :=
  [Status.active, .expired, .deleted, .unavailable].find? fun status =>
    ascii (statusText status) = text

namespace Response

/-- The code of an error. -/
def code (response : Response) : Option Bytes :=
  match response.content with
  | .json value => (member "error" value).bind (memberText "code")
  | _ => none

/-- The status an answer tells: in words, or by handing out the text. -/
def told (response : Response) : Option Status :=
  match response.content with
  | .json value => (response.code.or (memberText "status" value)).bind statusOf
  | .attachment .. => some .active
  | _ => none

/-- The text of a paste an answer carries. -/
def carried (response : Response) : Option Bytes :=
  match response.content with
  | .json value => memberText "content" value
  | .attachment _ content => some content
  | _ => none

end Response

section Members

variable {name key : String} {value : Json.Value} {members rest : List (String × Json.Value)}

@[simp]
theorem member_nil : member name (jsonObject []) = none := rfl

@[simp]
theorem member_cons : member name (jsonObject ((key, value) :: rest)) =
    if ascii name = ascii key then some value else member name (jsonObject rest) := by
  unfold member jsonObject
  simp only [List.map_cons, List.lookup_cons]
  by_cases hname : ascii name = ascii key
  · simp [hname]
  · rw [beq_eq_false_iff_ne.mpr hname, if_neg hname]

@[simp]
theorem member_append : member name (jsonObject (members ++ rest)) =
    (member name (jsonObject members)).or (member name (jsonObject rest)) := by
  induction members with
  | nil => simp
  | cons first members ih =>
      rw [List.cons_append, member_cons, member_cons, ih]
      split_ifs <;> rfl

@[simp]
theorem member_optionalMember {found : Option Json.Value} :
    member name (jsonObject (optionalMember key found)) =
      if ascii name = ascii key then found else none := by
  cases found <;> simp [optionalMember]

@[simp]
theorem member_ite {condition : Prop} [Decidable condition] :
    member name (jsonObject (if condition then members else [])) =
      if condition then member name (jsonObject members) else none := by
  split_ifs <;> rfl

end Members

/-! ## Answers read back -/

section Reading

variable {srv : Server} {r : Request} {id : UUID}

theorem statusOf_statusText (status : Status) :
    statusOf (ascii (statusText status)) = some status := by
  cases status <;> decide

theorem carried_writeError (status : ℕ) (code : String) (message : Bytes)
    (details : List (String × Json.Value)) :
    (writeError status code message details).carried = none := by
  simp +decide [writeError, writeJSON, Response.carried, memberText]

theorem told_writeError (status : ℕ) (code : String) (message : Bytes)
    (details : List (String × Json.Value)) :
    (writeError status code message details).told = statusOf (ascii code) := by
  simp +decide [writeError, writeJSON, Response.told, Response.code, memberText, jsonText, textOf]

/-- A refusal tells nothing of any paste. -/
theorem Refusal.silent {response : Response} (hrefusal : Refusal response) :
    response.told = none ∧ response.carried = none ∧ response.status ∉ [200, 201, 204] := by
  obtain ⟨status, code, message, details, retryAfter, hcode, rfl⟩ := hrefusal
  refine ⟨?_, carried_writeError status code message details, ?_⟩
  · refine (told_writeError status code message details).trans ?_
    revert hcode
    exact (by decide : ∀ entry ∈ refusals, statusOf (ascii entry.2) = none) (status, code)
  · exact (by decide : ∀ entry ∈ refusals, entry.1 ∉ [200, 201, 204]) (status, code) hcode

theorem fail_eq (failure : Failure) : ∃ message retryAfter, fail failure =
    { writeError (mapError failure).1 (mapError failure).2.1 message (mapError failure).2.2 with
      retryAfter := retryAfter } := ⟨_, _, rfl⟩

theorem told_fail (failure : Failure) :
    (fail failure).told = statusOf (ascii (mapError failure).2.1) := by
  obtain ⟨message, retryAfter, heq⟩ := fail_eq failure
  rw [heq]
  exact told_writeError (mapError failure).1 (mapError failure).2.1 message (mapError failure).2.2

theorem carried_fail (failure : Failure) : (fail failure).carried = none := by
  obtain ⟨message, retryAfter, heq⟩ := fail_eq failure
  rw [heq]
  exact carried_writeError (mapError failure).1 (mapError failure).2.1 message _

theorem told_statusErr {status : Status} {err : Paste.Err} (herr : statusErr status = some err) :
    (fail (.paste err)).told = some status := by
  cases status <;> cases herr <;> decide

private theorem silent_ite {condition : Prop} [Decidable condition] {Rest : Type}
    {first second : ℕ × String × Rest} (hfirst : statusOf (ascii first.2.1) = none)
    (hsecond : statusOf (ascii second.2.1) = none) :
    statusOf (ascii (if condition then first else second).2.1) = none := by
  split
  · exact hfirst
  · exact hsecond

/-- An error that does not say what has become of a paste is not shown as one that
does. -/
theorem told_fail_silent {err : Paste.Err} (hsilent : Silent err) :
    (fail (.paste err)).told = none := by
  have hexpired : Failure.isPaste .expired (.paste err) = false :=
    hsilent.is_eq_false (by simp)
  have hdeleted : Failure.isPaste .deleted (.paste err) = false :=
    hsilent.is_eq_false (by simp)
  have hunavailable : Failure.isPaste .unavailable (.paste err) = false :=
    hsilent.is_eq_false (by simp)
  rw [told_fail]
  unfold mapError
  cases (Failure.paste err).tooLarge? with
  | some sizes => exact (by decide : statusOf (ascii "paste_too_large") = none)
  | none =>
      simp only [hexpired, hdeleted, hunavailable, Bool.false_eq_true, if_false]
      repeat refine silent_ite (by decide) ?_
      decide

theorem read_pasteJSON (m : PasteMeta) (status : Status) (hashVisible : Bool)
    (content : Option Bytes) (includeOwner : Bool) (statusCode : ℕ) (baseURL : Bytes) :
    (writeJSON statusCode (pasteJSON baseURL m status hashVisible content includeOwner)).told =
        some status ∧
      (writeJSON statusCode (pasteJSON baseURL m status hashVisible content includeOwner)).carried =
        content := by
  refine ⟨?_, ?_⟩
  · simp +decide [writeJSON, Response.told, Response.code, pasteJSON, memberText, jsonText, textOf,
      statusOf_statusText]
  · cases content <;> simp +decide [writeJSON, Response.carried, pasteJSON, memberText, textOf]

theorem told_verifyAnswer (res : VerifyResult) :
    (verifyAnswer (.ok res)).told = some res.status := by
  simp +decide [verifyAnswer, writeJSON, Response.told, Response.code, memberText, jsonText, textOf,
    statusOf_statusText]

/-- What an answer shows of the outcome of a `Read`. -/
structure Shows (outcome : Except Paste.Err ReadResult) (response : Response) : Prop where
  told : ∀ status, response.told = some status → ∃ res, outcome = .ok res ∧ res.status = status
  carried : ∀ text, response.carried = some text →
    ∃ res, outcome = .ok res ∧ res.content = some text

variable {outcome : Except Paste.Err ReadResult}

/-- What a `Read` comes to: an error is silent, and an active paste is handed out,
unless a password is wanting. -/
def Released (password : Bytes) : Except Paste.Err ReadResult → Prop
  | .error err => Silent err
  | .ok res => res.status = .active →
      res.content.isSome = true ∨ res.info.passwordProtected = true ∧ password = []

theorem Shows.of_error {err : Paste.Err} (hsilent : Silent err) :
    Shows outcome (fail (.paste err)) := by
  constructor <;> simp [told_fail_silent hsilent, carried_fail]

theorem Shows.of_ok {res : ReadResult} {response : Response}
    (htold : response.told = some res.status)
    (hcarried : response.carried = none ∨ response.carried = res.content) :
    Shows (.ok res) response where
  told status hstatus := ⟨res, rfl, Option.some.inj (htold.symm.trans hstatus)⟩
  carried text htext := by
    rw [htext] at hcarried
    exact ⟨res, rfl, (hcarried.resolve_left (Option.some_ne_none text)).symm⟩

theorem Shows.of_pasteJSON (res : ReadResult) (hashVisible : Bool) (baseURL : Bytes) :
    Shows (.ok res) (writeJSON 200
      (pasteJSON baseURL res.info res.status hashVisible res.content false)) := by
  obtain ⟨htold, hcarried⟩ :=
    read_pasteJSON res.info res.status hashVisible res.content false 200 baseURL
  exact .of_ok htold (.inr hcarried)

theorem Shows.of_writeRaw {res : ReadResult} (hactive : res.status = .active)
    (hcontent : res.content.isSome = true) : Shows (.ok res) (writeRaw id res.content) := by
  obtain ⟨content, hcontent⟩ := Option.isSome_iff_exists.mp hcontent
  rw [hcontent]
  exact .of_ok (congrArg some hactive.symm) (.inr hcontent.symm)

theorem statusErr_eq_none {status : Status} (hnone : statusErr status = none) :
    status = .active := by
  cases status <;> first | rfl | cases hnone

theorem shows_get {password : Bytes} (hreleased : Released password outcome) :
    Shows outcome (getAnswer srv outcome) := by
  cases outcome with
  | error err => exact .of_error hreleased
  | ok res => exact .of_pasteJSON res res.hashVisible srv.baseURL

theorem shows_raw {password : Bytes} (hreleased : Released password outcome) :
    Shows outcome (rawAnswer id outcome) := by
  cases outcome with
  | error err => exact .of_error hreleased
  | ok res =>
      unfold rawAnswer
      dsimp only
      cases herr : statusErr res.status with
      | some err => exact .of_ok (told_statusErr herr) (.inl (carried_fail _))
      | none =>
          have hactive := statusErr_eq_none herr
          dsimp only
          split_ifs with hprotected
          · exact .of_error trivial
          · exact .of_writeRaw hactive ((hreleased hactive).resolve_right fun h => hprotected h.1)

theorem shows_unlock {password : Bytes} (hreleased : Released password outcome)
    (hpassword : password ≠ []) : Shows outcome (unlockAnswer srv r id outcome) := by
  cases outcome with
  | error err => exact .of_error hreleased
  | ok res =>
      unfold unlockAnswer
      dsimp only
      cases herr : statusErr res.status with
      | some err => exact .of_ok (told_statusErr herr) (.inl (carried_fail _))
      | none =>
          have hactive := statusErr_eq_none herr
          dsimp only
          split_ifs
          · exact .of_writeRaw hactive ((hreleased hactive).resolve_right fun h => hpassword h.2)
          · exact .of_pasteJSON res true srv.baseURL

end Reading

/-! ## Requests about one paste -/

/-- The paste a request asks to see. -/
def Views (r : Request) (id : UUID) : Prop :=
  ∃ text, parse text = some id ∧ (targetOf r = .api (.getPaste text) ∨
    targetOf r = .api (.rawPaste text) ∨ targetOf r = .api (.unlockPaste text))

def Verifies (r : Request) (id : UUID) : Prop :=
  ∃ text, parse text = some id ∧ targetOf r = .api (.verifyPaste text)

def Deletes (r : Request) (id : UUID) : Prop :=
  ∃ text, parse text = some id ∧ targetOf r = .api (.deletePaste text)

/-- Some client has been told the status of the paste, or that it has deleted the
paste, which is then over. -/
inductive Told (s : Config) (id : UUID) : Status → Prop
  | viewed (i : ℕ) (r : Request) (response : Response) (status : Status)
      (hreturned : s.Returned i (.request r) (.response response)) (hviews : Views r id)
      (htold : response.told = some status) : Told s id status
  | verified (i : ℕ) (r : Request) (response : Response) (status : Status)
      (hreturned : s.Returned i (.request r) (.response response)) (hverifies : Verifies r id)
      (htold : response.told = some status) : Told s id status
  | deleted (i : ℕ) (r : Request) (response : Response)
      (hreturned : s.Returned i (.request r) (.response response)) (hdeletes : Deletes r id)
      (hstatus : response.status = 204) : Told s id .expired

section Requests

variable {app : Params} {keeps : Envelope → Envelope → Prop} {clock : ℤ} {E : Envelope}
  {s : Config} {t : System.Config} {owner : List ℕ} {j : ℕ} {r : Request} {response : Response}
  {id : UUID}

/-- A request to see a paste is refused, or shows the outcome of a `Read`. -/
theorem Mirrors.viewed (hmirrors : Mirrors app keeps clock E s t owner)
    (hreturned : s.Returned j (.request r) (.response response)) (hviews : Views r id) :
    Refusal response ∨ ∃ k p password outcome, owner[k]? = some j ∧
      t.Returned k (.read p id password) (.read outcome) ∧ Shows outcome response := by
  have hwf := hmirrors.run.wellFormed .initial
  have hremembered := System.remembered_of_run (fun _ _ => Permitted.clockForward) hmirrors.run
  have hreleased : ∀ k p password outcome,
      t.Returned k (.read p id password) (.read outcome) → Released password outcome := by
    intro k p password outcome hread
    cases outcome with
    | error err => exact (System.returned_silent hwf hremembered).1 p password hread
    | ok res => exact (System.returned_read hwf hread).2
  obtain ⟨text, hid, htarget | htarget | htarget⟩ := hviews
  · refine (hmirrors.answer hreturned htarget trivial).imp_right ?_
    rintro ⟨done, hfinished, p, id', outcome, hid', rfl, rfl⟩
    cases hid.symm.trans hid'
    obtain ⟨k, howner, hread⟩ := hfinished _ (List.mem_singleton.mpr rfl)
    exact ⟨k, p, [], outcome, howner, hread, shows_get (hreleased k p [] outcome hread)⟩
  · refine (hmirrors.answer hreturned htarget trivial).imp_right ?_
    rintro ⟨done, hfinished, p, id', outcome, hid', rfl, rfl⟩
    cases hid.symm.trans hid'
    obtain ⟨k, howner, hread⟩ := hfinished _ (List.mem_singleton.mpr rfl)
    exact ⟨k, p, [], outcome, howner, hread, shows_raw (hreleased k p [] outcome hread)⟩
  · refine (hmirrors.answer hreturned htarget trivial).imp_right ?_
    rintro ⟨done, hfinished, p, id', password, outcome, hid', -, hpassword, rfl, rfl⟩
    cases hid.symm.trans hid'
    obtain ⟨k, howner, hread⟩ := hfinished _ (List.mem_singleton.mpr rfl)
    exact ⟨k, p, password, outcome, howner, hread,
      shows_unlock (hreleased k p password outcome hread) hpassword⟩

/-- What such a request is told is the status the `Read` has returned. -/
theorem Mirrors.viewed_told (hmirrors : Mirrors app keeps clock E s t owner)
    (hreturned : s.Returned j (.request r) (.response response)) (hviews : Views r id)
    {status : Status} (htold : response.told = some status) :
    ∃ k p password res, owner[k]? = some j ∧
      t.Returned k (.read p id password) (.read (.ok res)) ∧ res.status = status := by
  rcases hmirrors.viewed hreturned hviews with hrefusal |
    ⟨k, p, password, outcome, howner, hread, hshows⟩
  · rw [hrefusal.silent.1] at htold
    cases htold
  · obtain ⟨res, rfl, hstatus⟩ := hshows.told status htold
    exact ⟨k, p, password, res, howner, hread, hstatus⟩

theorem Mirrors.viewed_text (hmirrors : Mirrors app keeps clock E s t owner)
    (hreturned : s.Returned j (.request r) (.response response)) (hviews : Views r id)
    {text : Bytes} (hcarried : response.carried = some text) :
    ∃ k p password res, owner[k]? = some j ∧
      t.Returned k (.read p id password) (.read (.ok res)) ∧ res.content = some text := by
  rcases hmirrors.viewed hreturned hviews with hrefusal |
    ⟨k, p, password, outcome, howner, hread, hshows⟩
  · rw [hrefusal.silent.2.1] at hcarried
    cases hcarried
  · obtain ⟨res, rfl, hcontent⟩ := hshows.carried text hcarried
    exact ⟨k, p, password, res, howner, hread, hcontent⟩

theorem Mirrors.verified (hmirrors : Mirrors app keeps clock E s t owner)
    (hreturned : s.Returned j (.request r) (.response response)) (hverifies : Verifies r id)
    {status : Status} (htold : response.told = some status) :
    ∃ k sha256 res, owner[k]? = some j ∧ t.Returned k (.verify id sha256) (.verify (.ok res)) ∧
      res.status = status := by
  obtain ⟨text, hid, htarget⟩ := hverifies
  rcases hmirrors.answer hreturned htarget trivial with hrefusal |
    ⟨done, hfinished, id', sha256, outcome, hid', -, rfl, rfl⟩
  · rw [hrefusal.silent.1] at htold
    cases htold
  · cases hid.symm.trans hid'
    obtain ⟨k, howner, hverify⟩ := hfinished _ (List.mem_singleton.mpr rfl)
    cases outcome with
    | error err =>
        have hwf := hmirrors.run.wellFormed .initial
        have hremembered :=
          System.remembered_of_run (fun _ _ => Permitted.clockForward) hmirrors.run
        have hsilent := (System.returned_silent hwf hremembered).2 sha256 hverify
        rw [verifyAnswer, told_fail_silent hsilent] at htold
        cases htold
    | ok res =>
        rw [told_verifyAnswer] at htold
        exact ⟨k, sha256, res, howner, hverify, Option.some.inj htold⟩

theorem Mirrors.deleted (hmirrors : Mirrors app keeps clock E s t owner)
    (hreturned : s.Returned j (.request r) (.response response)) (hdeletes : Deletes r id)
    (hstatus : response.status = 204) :
    ∃ k p, owner[k]? = some j ∧ t.Returned k (.delete p id) (.delete (.ok ())) := by
  obtain ⟨text, hid, htarget⟩ := hdeletes
  rcases hmirrors.answer hreturned htarget trivial with hrefusal |
    ⟨done, hfinished, p, id', outcome, hid', rfl, rfl⟩
  · exact absurd (by simp [hstatus]) hrefusal.silent.2.2
  · cases hid.symm.trans hid'
    obtain ⟨k, howner, hdelete⟩ := hfinished _ (List.mem_singleton.mpr rfl)
    cases outcome with
    | error err =>
        have hrefused := (refused_fail (.paste err)).1
        rw [deleteAnswer] at hstatus
        omega
    | ok _ => exact ⟨k, p, howner, hdelete⟩

/-- What a client was told, a method has reported. -/
theorem Told.seen {status : Status} (htold : Told s id status)
    (hmirrors : Mirrors app keeps clock E s t owner) : System.Seen t id status := by
  cases htold with
  | viewed i r response _ hreturned hviews htold =>
      obtain ⟨k, p, password, res, -, hread, rfl⟩ := hmirrors.viewed_told hreturned hviews htold
      exact .read k p password res hread
  | verified i r response _ hreturned hverifies htold =>
      obtain ⟨k, sha256, res, -, hverify, rfl⟩ := hmirrors.verified hreturned hverifies htold
      exact .verify k sha256 res hverify
  | deleted i r response hreturned hdeletes hstatus =>
      obtain ⟨k, p, -, hdelete⟩ := hmirrors.deleted hreturned hdeletes hstatus
      exact .delete k p hdelete

/-- A text goes out for an active paste only. -/
theorem active_of_content (hwf : (System.machine app.pastes).WellFormed t) {k : ℕ}
    {p : Option Principal} {password text : Bytes} {res : ReadResult}
    (hread : t.Returned k (.read p id password) (.read (.ok res)))
    (hcontent : res.content = some text) : res.status = .active := by
  obtain ⟨value, hreach, ⟨⟩⟩ :=
    Proc.reaches_map_result.mp (hwf.reaches_returned hread)
  obtain ⟨m, _, _, _, _, _, _, _, _, -, -, -, -, -, rfl⟩ :=
    Paste.read_content_trace app.pastes.deps hreach hcontent
  rfl

end Requests

/-! ## The answers to all clients -/

/-- Whatever runs interleaved and whatever fails: once some client was told the
status of a paste, or that it has deleted it, no request made afterwards to see it is
told an earlier status, and none is given its text unless it was still active; the
same holds for a verification, which does not look at the body and so tells no loss. -/
theorem answers_never_go_back {app : Params} (hwired : app.Wired) {store : Store} {clock : ℤ}
    {E : Envelope} (hempty : store.system = .empty clock E) {mid last : Config} {id : UUID}
    {status : Status} (hrun : (machine app).Run anyStep (.initial store) mid)
    (htold : Told mid id status) (hlater : (machine app).Run anyStep mid last) {j : ℕ} {r : Request}
    {response : Response} (hj : mid.ops.length ≤ j)
    (hreturned : last.Returned j (.request r) (.response response)) :
    (Views r id → ∀ later, response.told = some later → status.rank ≤ later.rank) ∧
      (Views r id → status ≠ .active → response.carried = none) ∧
      (Verifies r id → ∀ later, response.told = some later →
        status = .unavailable ∨ status.rank ≤ later.rank) := by
  have hany : ∀ (s : Config) (action : Action), anyStep s action →
      Restarts (fun _ _ => True) s action := by
    intro s action _
    cases action with
    | env change => cases change <;> trivial
    | _ => trivial
  obtain ⟨t, owner, hmid⟩ := mirrors_of_run hwired hempty (hrun.weaken hany)
  obtain ⟨u, owner', hlater', howners, hlast⟩ := hmid.later hwired (hlater.weaken hany)
  have hforward : ∀ (t : System.Config) (action : System.Action),
      Permitted (fun _ _ => True) t.store action → System.ClockForward t action :=
    fun _ _ => Permitted.clockForward
  have hwf := hlast.run.wellFormed .initial
  have hnever : ∀ k, owner'[k]? = some j → _ := fun k howner =>
    System.status_never_goes_back hforward hmid.run (htold.seen hmid) hlater'
      (hmid.simulates.later howners howner hj)
  refine ⟨?_, ?_, ?_⟩
  · intro hviews later hlaterTold
    obtain ⟨k, p, password, res, howner, hread, rfl⟩ :=
      hlast.viewed_told hreturned hviews hlaterTold
    exact (hnever k howner).1 p password res hread
  · intro hviews hover
    rw [Option.eq_none_iff_forall_ne_some]
    intro text htext
    obtain ⟨k, p, password, res, howner, hread, hcontent⟩ :=
      hlast.viewed_text hreturned hviews htext
    have hrank := (hnever k howner).1 p password res hread
    rw [active_of_content hwf hread hcontent] at hrank
    revert hover hrank
    cases status <;> decide
  · intro hverifies later hlaterTold
    obtain ⟨k, sha256, res, howner, hverify, rfl⟩ :=
      hlast.verified hreturned hverifies hlaterTold
    exact (hnever k howner).2 sha256 res hverify

namespace Sample

theorem views_view : Views view System.Sample.id :=
  ⟨System.Sample.id.text, parse_text _, .inl (by decide +kernel)⟩

/-- The owner's request to delete the paste. -/
def delete : Request :=
  { logout with method := .delete, target := view.target, escaped := view.escaped }

/-- It removes the body, marks the row and is recorded. -/
def deleting (i : ℕ) : List Action :=
  resolving i ++ .advance i (.limit .ok) :: List.replicate 6 (.advance i (.paste .ok))

/-- One more request has come in. -/
def asked (s : Config) (r : Request) : Config := s.invoke (.request r) (program app (.request r))

variable {allowed : Config → Action → Prop}

theorem run_asked {s : Config} {r : Request} (hallowed : allowed s (.invoke (.request r))) :
    (machine app).Run allowed s (asked s r) := by
  have hact : (machine app).act s (.invoke (.request r)) = some (asked s r) := rfl
  exact .tail .refl hallowed hact

theorem op_asked {s last : Config} {r : Request} {i : ℕ} (hlength : s.ops.length = i)
    (hrun : (machine app).Run allowed (asked s r) last) : last.ops[i]? = some (.request r) := by
  refine hrun.extends.op ?_
  rw [asked, Config.invoke, ← hlength]
  simp

end Sample

/-- A paste is submitted and deleted, and then asked for. -/
theorem answers_never_go_back_sample :
    ∃ mid last response, (machine Sample.app).Run anyStep (.initial Sample.store) mid ∧
      Told mid System.Sample.id .expired ∧ (machine Sample.app).Run anyStep mid last ∧
      last.Returned 2 (.request Sample.view) (.response response) ∧
      response.told = some .deleted ∧ Status.expired.rank ≤ Status.deleted.rank ∧
      response.carried = none := by
  have hperform : ((machine Sample.app).perform (fun _ _ => true)
      (Sample.invoked (Sample.submit (ascii "hi"))) Sample.submitting).any (fun first =>
        decide (first.ops.length = 1) &&
        ((machine Sample.app).perform (fun _ _ => true) (Sample.asked first Sample.delete)
          (Sample.deleting 1)).any fun mid => decide (mid.ops.length = 2) &&
            ((Sample.response? mid 1).any fun response => decide (response.status = 204)) &&
            ((machine Sample.app).perform (fun _ _ => true) (Sample.asked mid Sample.view)
              (List.replicate 2 (.advance 2 (.paste .ok)))).any fun last =>
                (Sample.response? last 2).any fun response =>
                  decide (response.told = some .deleted)) = true := by
    decide +kernel
  have hany : ∀ (s : Config) (action : Action), true = true → anyStep s action :=
    fun _ _ _ => trivial
  obtain ⟨first, hfirst, hobserved⟩ := Machine.exists_run_of_perform hany hperform
  simp only [Bool.and_eq_true, decide_eq_true_eq] at hobserved
  obtain ⟨mid, hmid, hobserved'⟩ := Machine.exists_run_of_perform hany hobserved.2
  simp only [Bool.and_eq_true, decide_eq_true_eq] at hobserved'
  obtain ⟨last, hlast, hview⟩ := Machine.exists_run_of_perform hany hobserved'.2
  obtain ⟨deleted, hdeleted, hstatus⟩ := (Option.any_eq_true _ _).mp hobserved'.1.2
  obtain ⟨response, hresponse, htold⟩ := (Option.any_eq_true _ _).mp hview
  have hrun := ((Sample.run_invoked (Sample.submit (ascii "hi"))).trans hfirst).trans
    ((Sample.run_asked trivial).trans hmid)
  have hlater := (Sample.run_asked trivial).trans hlast
  have htarget : targetOf Sample.delete = .api (.deletePaste System.Sample.id.text) := by
    decide +kernel
  have hover : Told mid System.Sample.id .expired :=
    .deleted 1 Sample.delete deleted
      (Sample.returned_of_response (Sample.op_asked hobserved.1 hmid) hdeleted)
      ⟨_, parse_text _, htarget⟩ (of_decide_eq_true hstatus)
  have hreturned := Sample.returned_of_response (Sample.op_asked hobserved'.1.1 hlast) hresponse
  have hwired : Sample.app.Wired := rfl
  obtain ⟨hstatuses, htexts, -⟩ :=
    answers_never_go_back hwired rfl hrun hover hlater hobserved'.1.1.le hreturned
  exact ⟨mid, last, response, hrun, hover, hlater, hreturned, of_decide_eq_true htold,
    hstatuses Sample.views_view _ (of_decide_eq_true htold), htexts Sample.views_view (by decide)⟩

/-! ## The text of an answer -/

/-- No other key than its own unwraps the data key of a protected paste. -/
def SealsBound (app : Params) (s : Config) : Prop :=
  ∀ i id expiresAt plain password record,
    s.Did i (.paste (.envelopeSeal id expiresAt plain password)) (.ok record) → password ≠ [] →
      app.prims.gcm.Binding record.wrappedDEK

section Text

variable {app : Params} {keeps : Envelope → Envelope → Prop} {clock : ℤ} {E : Envelope}
  {s : Config} {t : System.Config} {owner : List ℕ} {id : UUID}

theorem SealsBound.mirrored (hbound : SealsBound app s)
    (hmirrors : Mirrors app keeps clock E s t owner) : System.SealsBound app.pastes t := by
  intro k id expiresAt plain password record hdid hpassword
  obtain ⟨i, -, hmem⟩ := hmirrors.simulates.log.did hdid
  exact hbound i id expiresAt plain password record hmem hpassword

/-- The members by which a client knows its paste. -/
theorem created_members (baseURL : Bytes) (m : PasteMeta) :
    memberText "id" (pasteJSON baseURL m .active true none false) = some m.id.text ∧
      memberText "sha256" (pasteJSON baseURL m .active true none false) = some m.contentHash := by
  refine ⟨?_, ?_⟩ <;> simp +decide [pasteJSON, memberText, textOf]

/-- A submission that was accepted has listed the paste it names. -/
theorem Mirrors.created (hmirrors : Mirrors app keeps clock E s t owner) {i : ℕ} {r : Request}
    {response : Response} (hreturned : s.Returned i (.request r) (.response response))
    (htarget : targetOf r = .api .createPaste) (hstatus : response.status = 201)
    {value : Json.Value} (hvalue : response.content = .json value)
    (hid : memberText "id" value = some id.text) :
    ∃ k c body, owner[k]? = some i ∧ System.Listed app.pastes t k c ∧ c.id = id ∧
      createBody r.body = some body ∧ c.input = body.submission ∧
      memberText "sha256" value =
        some (Paste.hashHex app.pastes.prims.sha256 c.attempt.canonical) := by
  have hwf := hmirrors.run.wellFormed .initial
  rcases hmirrors.answer hreturned htarget trivial with hrefusal |
    ⟨done, hfinished, p, body, outcome, hbody, rfl, rfl⟩
  · exact absurd (by simp [hstatus]) hrefusal.silent.2.2
  · obtain ⟨k, howner, hcreate⟩ := hfinished _ (List.mem_singleton.mpr rfl)
    cases outcome with
    | error err =>
        have hrefused := (refused_fail (.paste err)).1
        rw [createAnswer] at hstatus
        omega
    | ok res =>
        cases hvalue
        obtain ⟨c, hlisted, hinput, hinfo⟩ := System.listed_of_returned hwf hcreate
        obtain ⟨hname, hhash⟩ := created_members app.server.baseURL res.info
        rw [hname, hinfo, System.Creation.info_id] at hid
        have hcid := text_injective (Option.some.inj hid)
        refine ⟨k, c, body, howner, hlisted, hcid, hbody, hinput, ?_⟩
        rw [hhash, hinfo, c.info_eq app.pastes]
        rfl

end Text

/-- With restarts that keep every key, whatever else runs interleaved and whatever
fails: a text that an answer carries was submitted, in canonical form, by a request to
create a paste; and every submission that was answered with the identifier of this
paste had that content, and was answered with its hash. -/
theorem answered_text_submitted {app : Params} (hwired : app.Wired) {store : Store} {clock : ℤ}
    {E : Envelope} (hempty : store.system = .empty clock E) {s : Config}
    (hrun : (machine app).Run (Restarts Envelope.KeepsKeys) (.initial store) s)
    (hbound : SealsBound app s) {j : ℕ} {r : Request} {response : Response} {id : UUID}
    {text : Bytes} (hreturned : s.Returned j (.request r) (.response response))
    (hviews : Views r id) (hcarried : response.carried = some text) :
    (∃ (i : ℕ) (submission : Request) (body : CreateBody),
      s.ops[i]? = some (.request submission) ∧ targetOf submission = .api .createPaste ∧
        createBody submission.body = some body ∧
        Paste.canonicalize body.content app.server.pastes.limits.maxSize = .ok text) ∧
      ∀ i submission created value,
        s.Returned i (.request submission) (.response created) →
        targetOf submission = .api .createPaste → created.status = 201 →
        created.content = .json value → memberText "id" value = some id.text →
        ∃ body, createBody submission.body = some body ∧
          Paste.canonicalize body.content app.server.pastes.limits.maxSize = .ok text ∧
          memberText "sha256" value = some (Paste.hashHex app.prims.sha256 text) := by
  obtain ⟨t, owner, hmirrors⟩ := mirrors_of_run hwired hempty hrun
  have hwf := hmirrors.run.wellFormed .initial
  have hprov := System.provenance_of_run hmirrors.run
  obtain ⟨k, p, password, res, -, hread, hcontent⟩ :=
    hmirrors.viewed_text hreturned hviews hcarried
  obtain ⟨l, q, input, hop, hdrew, -, hcanonical, -⟩ :=
    System.read_content_of_run (fun _ _ => Permitted.keyringGrows) hmirrors.run
      (hbound.mirrored hmirrors) hread hcontent
  refine ⟨?_, ?_⟩
  · have hl : l < owner.length := by
      rw [hmirrors.simulates.length]
      exact (List.getElem?_eq_some_iff.mp hop).1
    obtain ⟨op, hop', hasks⟩ :=
      hmirrors.simulates.asked l _ _ (List.getElem?_eq_getElem hl) hop
    cases op with
    | request submission =>
        obtain ⟨htarget, body, hbody, rfl⟩ := hasks
        exact ⟨_, submission, body, hop', htarget, hbody, hcanonical⟩
    | command command => exact hasks.elim
    | sweep => cases hasks
  · intro i submission created value hcreated htarget hstatus hvalue hid
    obtain ⟨n, c, body, -, hlisted, hcid, hbody, hinput, hhash⟩ :=
      hmirrors.created hcreated htarget hstatus hvalue hid
    have hdrew' := hlisted.toStored.drew
    rw [hcid] at hdrew'
    cases hprov.unique n l id hdrew' hdrew
    have hsame := hlisted.op.symm.trans hop
    rw [System.Creation.op, Option.some.injEq] at hsame
    cases hsame
    have htext : c.attempt.canonical = text :=
      Except.ok.inj (hlisted.accepted.canonical_eq.symm.trans hcanonical)
    rw [hinput] at hcanonical
    rw [htext] at hhash
    exact ⟨body, hbody, hcanonical, hhash⟩

namespace Sample

/-- Anything but a change from outside. -/
def isInside (_ : Config) : Action → Bool
  | .env _ => false
  | _ => true

theorem restarts_of_isInside {keeps : Envelope → Envelope → Prop} (s : Config) (action : Action)
    (hinside : isInside s action = true) : Restarts keeps s action := by
  cases action with
  | env change => cases hinside
  | _ => trivial

/-- Nothing was sealed with a password. -/
def sealsOpenly (s : Config) : Bool :=
  s.log.all fun entry =>
    match entry.2.1 with
    | .paste (.envelopeSeal _ _ _ password) => password = []
    | _ => true

theorem sealsBound_of_sealsOpenly {s : Config} (hopenly : sealsOpenly s = true) :
    SealsBound app s := by
  intro i id expiresAt plain password record hdid hpassword
  have hentry := List.all_eq_true.mp hopenly _ hdid
  exact absurd (of_decide_eq_true hentry) hpassword

/-- The members of an answer that name the sample paste. -/
def namesPaste (response : Response) : Bool :=
  match response.content with
  | .json value => memberText "id" value = some System.Sample.id.text
  | _ => false

theorem member_of_namesPaste {response : Response} (hnames : namesPaste response = true) :
    ∃ value, response.content = .json value ∧
      memberText "id" value = some System.Sample.id.text := by
  unfold namesPaste at hnames
  split at hnames
  · rename_i value hvalue
    exact ⟨value, hvalue, of_decide_eq_true hnames⟩
  · cases hnames

/-- The text of a paste without a password is handed out. -/
def viewing (i : ℕ) : List Action :=
  List.replicate 4 (.advance i (.paste .ok)) ++ .advance i (.paste (.opening .granted)) ::
    List.replicate 6 (.advance i (.paste .ok))

end Sample

/-- A paste is submitted and its text asked for. -/
theorem answered_text_submitted_sample :
    ∃ s created response value text,
      (machine Sample.app).Run (Restarts Envelope.KeepsKeys) (.initial Sample.store) s ∧
      s.Returned 0 (.request (Sample.submit (ascii "hi"))) (.response created) ∧
      created.content = .json value ∧
      s.Returned 1 (.request Sample.view) (.response response) ∧ response.carried = some text ∧
      memberText "sha256" value = some (Paste.hashHex Sample.app.prims.sha256 text) := by
  have hperform : ((machine Sample.app).perform Sample.isInside
      (Sample.invoked (Sample.submit (ascii "hi"))) Sample.submitting).any (fun first =>
        decide (first.ops.length = 1) &&
        ((machine Sample.app).perform Sample.isInside (Sample.asked first Sample.view)
          (Sample.viewing 1)).any fun s => Sample.sealsOpenly s &&
            ((Sample.response? s 0).any fun created =>
              decide (created.status = 201) && Sample.namesPaste created) &&
            (Sample.response? s 1).any fun response => response.carried.isSome) = true := by
    decide +kernel
  have hinside : ∀ (s : Config) (action : Action), Sample.isInside s action = true →
      Restarts Envelope.KeepsKeys s action := Sample.restarts_of_isInside
  obtain ⟨first, hfirst, hobserved⟩ := Machine.exists_run_of_perform hinside hperform
  simp only [Bool.and_eq_true, decide_eq_true_eq] at hobserved
  obtain ⟨s, hs, hobserved'⟩ := Machine.exists_run_of_perform hinside hobserved.2
  simp only [Bool.and_eq_true] at hobserved'
  obtain ⟨created, hcreated, hnames⟩ := (Option.any_eq_true _ _).mp hobserved'.1.2
  obtain ⟨response, hresponse, htext⟩ := (Option.any_eq_true _ _).mp hobserved'.2
  obtain ⟨text, htext⟩ := Option.isSome_iff_exists.mp htext
  rw [Bool.and_eq_true, decide_eq_true_eq] at hnames
  obtain ⟨value, hvalue, hid⟩ := Sample.member_of_namesPaste hnames.2
  have hrun : (machine Sample.app).Run (Restarts Envelope.KeepsKeys) (.initial Sample.store) s :=
    ((Sample.run_asked trivial).trans hfirst).trans ((Sample.run_asked trivial).trans hs)
  have hop : s.ops[0]? = some (.request (Sample.submit (ascii "hi"))) :=
    ((hfirst.trans (Sample.run_asked trivial)).trans hs).extends.op rfl
  have hreturned := Sample.returned_of_response (Sample.op_asked hobserved.1 hs) hresponse
  have hsubmitted := Sample.returned_of_response hop hcreated
  have hwired : Sample.app.Wired := rfl
  obtain ⟨body, -, -, hhash⟩ := (answered_text_submitted hwired rfl hrun
    (Sample.sealsBound_of_sealsOpenly hobserved'.1.1) hreturned Sample.views_view htext).2 0 _
      created value hsubmitted (by decide +kernel) hnames.1 hvalue hid
  exact ⟨s, created, response, value, text, hrun, hsubmitted, hvalue, hreturned, htext, hhash⟩

end SecurePastebin.Web
