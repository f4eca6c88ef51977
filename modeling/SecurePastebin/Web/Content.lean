import SecurePastebin.Core.JsonToken
import SecurePastebin.Web.Machine
import SecurePastebin.Web.Points
import SecurePastebin.Web.Submission

/-!
# Stored text

From the string token of the content to the bytes that are sealed and hashed.  The
decoder comes before `Canonicalize`: it replaces what is not UTF-8, so the check of
`Canonicalize` sees only valid text.  A token that is UTF-8 and has its surrogates
paired is stored as the text it denotes; in any other, U+FFFD takes the place of
what is malformed, and the submission is accepted all the same.
-/

namespace SecurePastebin.Web

open Text Utf8 Json Paste
open Process Interleaving
open Store.Bodies (foldName decodeString decodeInt)

/-! ## From the token to the content -/

/-- What the decoder makes of the bytes of a body: their first value, whatever
follows it, or an error. -/
inductive Decodes (text : Bytes) : Body → Prop
  | value {value : Value} {rest : Bytes}
      (hread : readValue (text.length + 1) text = some (value, rest)) :
      Decodes text (.value value)
  | malformed : Decodes text .malformed
  | tooLarge : Decodes text .tooLarge

/-- The token of a member that sets the content. -/
def contentToken? (entry : Bytes × Option Bytes) : Option Bytes :=
  if foldName entry.1 = ascii "content" then entry.2 else none

/-- The string token of the content: a later member takes the place of an earlier one. -/
def submittedToken (text : Bytes) : Option Bytes :=
  ((objectTokens text).filterMap contentToken?).getLast?

/-- A step of the decoder sets the content at a string member of that name, and only there. -/
def SetsContent (step : CreateBody → Bytes × Value → Option CreateBody) : Prop :=
  ∀ input member after, step input member = some after →
    foldName member.1 = ascii "content" ∧ member.2 = .string after.content ∨
      (foldName member.1 = ascii "content" → ∀ text, member.2 ≠ .string text) ∧
        after.content = input.content

theorem content_of_members {step : CreateBody → Bytes × Value → Option CreateBody}
    (hstep : SetsContent step) {members : List (Bytes × Value)}
    {entries : List (Bytes × Option Bytes)} (hspells : List.Forall₂ Spells members entries)
    {input last : CreateBody} (hfold : members.foldlM step input = some last) :
    ((entries.filterMap contentToken?).getLast? = none → last.content = input.content) ∧
      ∀ token, (entries.filterMap contentToken?).getLast? = some token → valid token = true →
        hasUnpaired token = false → Written last.content token := by
  induction hspells generalizing input with
  | nil =>
      cases hfold
      refine ⟨fun _ => rfl, fun token htoken => ?_⟩
      cases htoken
  | @cons member entry members entries hentry _ ih =>
      rw [List.foldlM_cons, Option.bind_eq_bind, Option.bind_eq_some_iff] at hfold
      obtain ⟨after, hafter, hfold⟩ := hfold
      obtain ⟨hkept, hlast⟩ := ih hfold
      have hset := hstep input member after hafter
      cases hfound : contentToken? entry with
      | none =>
          rw [List.filterMap_cons_none hfound]
          refine ⟨fun hnone => ?_, hlast⟩
          rcases hset with ⟨hname, hstring⟩ | ⟨-, hsame⟩
          · rw [contentToken?, hentry.name, if_pos hname] at hfound
            exact absurd hstring (hentry.other hfound _)
          · rw [hkept hnone, hsame]
      | some found =>
          rw [List.filterMap_cons_some hfound, List.getLast?_cons]
          refine ⟨fun hnone => ?_, fun token htoken hvalid hpaired => ?_⟩
          · cases hnone
          · cases hmore : (entries.filterMap contentToken?).getLast? with
            | some later =>
                rw [hmore] at htoken
                cases htoken
                exact hlast later hmore hvalid hpaired
            | none =>
                rw [hmore] at htoken
                cases htoken
                rw [hkept hmore]
                unfold contentToken? at hfound
                split at hfound
                · rename_i hname
                  obtain ⟨text, htext, hwritten⟩ := hentry.string _ hfound
                  rcases hset with ⟨-, hstring⟩ | ⟨hother, -⟩
                  · cases htext.symm.trans hstring
                    exact hwritten hvalid hpaired
                  · exact absurd htext (hother (hentry.name ▸ hname) text)
                · cases hfound

theorem decodeString_eq_some {current found : Bytes} {value : Value}
    (hdecode : decodeString current value = some found) :
    value = .string found ∨ value = .null ∧ found = current := by
  cases value <;> cases hdecode
  · exact .inr ⟨rfl, rfl⟩
  · exact .inl rfl

theorem createBody_members {members : List (Bytes × Value)} {input : CreateBody}
    (hinput : createBody (.value (.object members)) = some input) :
    ∃ step, SetsContent step ∧ members.foldlM step ⟨[], [], 0, []⟩ = some input := by
  refine ⟨_, ?_, hinput⟩
  rintro input ⟨name, value⟩ after hafter
  dsimp only at hafter ⊢
  by_cases hname : foldName name = ascii "content"
  · rw [if_pos hname, Option.map_eq_some_iff] at hafter
    obtain ⟨content, hcontent, rfl⟩ := hafter
    rcases decodeString_eq_some hcontent with rfl | ⟨rfl, rfl⟩
    · exact .inl ⟨hname, rfl⟩
    · exact .inr ⟨fun _ => by simp, rfl⟩
  · refine .inr ⟨fun hfound => absurd hfound hname, ?_⟩
    rw [if_neg hname] at hafter
    split_ifs at hafter
    all_goals
      rw [Option.map_eq_some_iff] at hafter
      obtain ⟨_, _, rfl⟩ := hafter
      rfl

/-- The content of a decoded body is what its token denotes. -/
theorem content_of_createBody {text token : Bytes} {body : Body} {input : CreateBody}
    (hbody : Decodes text body) (hinput : createBody body = some input)
    (htoken : submittedToken text = some token) (hvalid : valid token = true)
    (hpaired : hasUnpaired token = false) : Written input.content token := by
  cases hbody with
  | value hread =>
      rcases spells_value hread with ⟨members, rfl, hspells⟩ | hnone
      · obtain ⟨step, hstep, hfold⟩ := createBody_members hinput
        exact (content_of_members hstep hspells hfold).2 token htoken hvalid hpaired
      · rw [submittedToken, hnone] at htoken
        cases htoken
  | malformed | tooLarge => cases hinput

/-! ## From the content to the stores -/

/-- The text a step has sealed. -/
def sealedText? : Step → Option Bytes
  | ⟨.paste (.envelopeSeal _ _ text _), .ok _⟩ => some text
  | _ => none

/-- The hash of the content in the row a step has inserted. -/
def storedHash? : Step → Option Bytes
  | ⟨.paste (.metasCreate info), .ok ()⟩ => some info.contentHash
  | _ => none

/-- What is sealed and hashed for a text. -/
def withBOM (text : Bytes) : Bytes := if hasBOM text then text else BOM ++ text

theorem canonicalize_eq {content canonical : Bytes} {maxSize : ℤ}
    (hok : canonicalize content maxSize = .ok canonical) : canonical = withBOM content := by
  unfold canonicalize at hok
  split at hok
  · cases hok
  · dsimp only at hok
    generalize htext : (if !hasBOM content then BOM ++ content else content) = text at hok
    split at hok
    · cases hok
    · cases hok
      rw [← htext, withBOM]
      cases hasBOM content <;> rfl

/-- The steps seal and hash one text. -/
def Stores (sha256 : Bytes → Bytes) (canonical : Bytes) (trace : List Step) : Prop :=
  trace.filterMap sealedText? = [canonical] ∧
    trace.filterMap storedHash? = [hashHex sha256 canonical]

variable {srv : Server} {r : Request} {info : Option SessionInfo} {si : SessionInfo}
  {trace : List Step} {response : Response}

/-- A step of another port stores nothing. -/
theorem Stores.cons {sha256 : Bytes → Bytes} {canonical : Bytes} {step : Step} {tail : List Step}
    (hother : ∀ call, step.1 ≠ .paste call) (hstores : Stores sha256 canonical tail) :
    Stores sha256 canonical (step :: tail) := by
  have hsealed : sealedText? step = none := by
    unfold sealedText?
    split
    · exact absurd rfl (hother _)
    · rfl
  have hstored : storedHash? step = none := by
    unfold storedHash?
    split
    · exact absurd rfl (hother _)
    · rfl
  rw [Stores, List.filterMap_cons_none hsealed, List.filterMap_cons_none hstored]
  exact hstores

theorem Stores.append {sha256 : Bytes → Bytes} {canonical : Bytes} {front tail : List Step}
    (hother : ∀ step ∈ front, ∀ call, step.1 ≠ .paste call)
    (hstores : Stores sha256 canonical tail) : Stores sha256 canonical (front ++ tail) := by
  induction front with
  | nil => exact hstores
  | cons step front ih =>
      exact .cons (hother step List.mem_cons_self)
        (ih fun other hmem => hother other (List.mem_cons_of_mem _ hmem))

theorem contentHash_info (d : Deps) (p : Principal) (input : CreateInput) (a : Attempt) :
    (a.info d p input).contentHash = hashHex d.sha256 a.canonical := by
  unfold Attempt.info withKek
  split <;> rfl

theorem createFrom_created {input : CreateBody}
    (hreach : (createFrom srv si input).Reaches trace (.inr response))
    (hcreated : response.status = 201) :
    Stores srv.pastes.sha256 (withBOM input.content) trace := by
  unfold createFrom at hreach
  rcases Proc.reaches_lift_bind _ hreach with ⟨_, _, -, ⟨⟩, -⟩ |
    ⟨sub, tail, outcome, rfl, hcreate, hrest⟩
  cases outcome with
  | error err =>
      obtain ⟨-, hresponse⟩ := hrest
      cases hresponse
      exact absurd hcreated (by have := (refused_fail (.paste err)).1; omega)
  | ok result =>
      obtain ⟨rfl, -⟩ := hrest
      rw [List.append_nil]
      generalize hpoint : (Sum.inr (Except.ok result) : Paste.Call ⊕ _) = point at hcreate
      cases create_point _ hcreate <;> cases hpoint
      rename_i a haccepted hremaining rest hrecord
      rw [← show a.canonical = withBOM input.content from canonicalize_eq haccepted.canonical_eq]
      rw [Stores, ← contentHash_info srv.pastes si.user.principal
        ⟨input.content, input.password, input.ttlSeconds⟩]
      generalize hpoint : (Sum.inr () : Paste.Call ⊕ Unit) = point at hrecord
      cases hrecord <;> cases hpoint <;> exact ⟨rfl, rfl⟩

theorem createPaste_created (hreach : (createPaste srv r info si).Reaches trace (.inr response))
    (hcreated : response.status = 201) :
    ∃ input, createBody r.body = some input ∧
      Stores srv.pastes.sha256 (withBOM input.content) trace := by
  unfold createPaste at hreach
  split at hreach
  · obtain ⟨-, hresponse⟩ := hreach
    cases hresponse
    cases hcreated
  split at hreach
  · obtain ⟨-, hresponse⟩ := hreach
    cases hresponse
    cases hcreated
  rename_i input hinput
  refine ⟨input, hinput, ?_⟩
  rcases limited_reaches hreach with ⟨_, ⟨⟩, -⟩ | ⟨refusal, hpoint, hstatus, -⟩ |
    ⟨front, tail, rfl, ⟨sub, decision, later, rfl, -, -, rfl⟩, hnext⟩
  · cases hpoint
    omega
  · have hlimits : ∀ step ∈ sub.map limitCalls.entry ++ [], ∀ call, step.1 ≠ .paste call := by
      intro step hstep call
      simp only [List.append_nil, List.mem_map] at hstep
      obtain ⟨found, -, rfl⟩ := hstep
      rintro ⟨⟩
    refine .append hlimits ?_
    split at hnext
    · exact createFrom_created hnext hcreated
    · simp only [Port.challengeConsume, Proc.perform_bind, Proc.reaches_call_result] at hnext
      obtain ⟨outcome, rest, rfl, hnext⟩ := hnext
      cases outcome with
      | error err =>
          obtain ⟨-, hresponse⟩ := hnext
          cases hresponse
          exact absurd hcreated (by have := (refused_fail (.paste .challengeRequired)).1; omega)
      | ok =>
          refine .cons (fun call => ?_) (createFrom_created hnext hcreated)
          rintro ⟨⟩

theorem serve_created (htarget : targetOf r = .api .createPaste)
    (hreach : (serve srv r).Reaches trace (.inr response)) (hcreated : response.status = 201) :
    ∃ input, createBody r.body = some input ∧
      Stores srv.pastes.sha256 (withBOM input.content) trace := by
  rcases serve_reaches hreach with ⟨_, -, ⟨⟩⟩ | ⟨info, front, tail, rfl, hload, hrest⟩
  rcases hrest with ⟨refusal, hrefusal, -, hpoint⟩ | ⟨-, hdispatch⟩
  · cases hpoint
    have := (csrf_refusal hrefusal).1
    omega
  · rw [dispatch, htarget] at hdispatch
    cases info with
    | none =>
        obtain ⟨-, hresponse⟩ := hdispatch
        cases hresponse
        cases hcreated
    | some si =>
        obtain ⟨input, hinput, hstores⟩ := createPaste_created hdispatch hcreated
        refine ⟨input, hinput, .append (fun step hstep call heq => ?_) hstores⟩
        rcases loadSession_calls.of_mem hload hstep with ⟨_, hcall⟩ | ⟨_, hcall⟩
        · cases hcall.symm.trans heq
        · cases hcall.symm.trans heq

/-- A submission that is answered with 201 has stored a text, and it is the one its
token denotes if and only if the token is UTF-8 with its surrogates paired. -/
theorem submitted_exactly {app : Params} {start : Store} {s : Config}
    (hrun : (machine app).Run anyStep (.initial start) s) {i : ℕ} {r : Request}
    {response : Response} (hreturned : s.Returned i (.request r) (.response response))
    (htarget : targetOf r = .api .createPaste) (hcreated : response.status = 201)
    {text token : Bytes} (hbody : Decodes text r.body) (htoken : submittedToken text = some token) :
    (∃ canonical, Stores app.server.pastes.sha256 canonical (s.trace i)) ∧
      ((∃ denoted, Written denoted token ∧
          Stores app.server.pastes.sha256 (withBOM denoted) (s.trace i)) ↔
        valid token = true ∧ hasUnpaired token = false) := by
  have hreach := (hrun.wellFormed .initial).reaches_returned hreturned
  obtain ⟨found, hserve, ⟨⟩⟩ := Proc.reaches_map_result.mp hreach
  obtain ⟨input, hinput, hstores⟩ := serve_created htarget hserve hcreated
  refine ⟨⟨_, hstores⟩, ?_, ?_⟩
  · rintro ⟨denoted, hwritten, -⟩
    exact hwritten.wellFormed
  · rintro ⟨hvalid, hpaired⟩
    exact ⟨input.content, content_of_createBody hbody hinput htoken hvalid hpaired, hstores⟩

namespace Sample

/-- A submission with no other member. -/
def submit (content : Bytes) : Request :=
  { logout with
    target := ascii "/api/v1/pastes"
    escaped := by decide
    body := .value (.object [(ascii "content", .string content)]) }

/-- Its body, where the content is written as `token`. -/
def bodyOf (token : Bytes) : Bytes := ascii "\x7b\"content\":\"" ++ token ++ ascii "\"\x7d"

/-- The submission is accepted, sealed, stored and recorded. -/
def submitting : List Action :=
  resolving 0 ++ [.advance 0 (.limit .ok), .advance 0 (.paste .ok),
    .advance 0 (.paste (.uuid System.Sample.id)),
    .advance 0 (.paste (.sealing .granted Crypto.Sample.draws))] ++
      List.replicate 5 (.advance 0 (.paste .ok))

/-- The text is read as a submission of `content`. -/
def readsContent (text content : Bytes) : Bool :=
  match readValue (text.length + 1) text with
  | some (.object [(name, .string found)], _) => name = ascii "content" && found = content
  | _ => false

theorem decodes_of_readsContent {text content : Bytes} (hreads : readsContent text content = true) :
    Decodes text (submit content).body := by
  unfold readsContent at hreads
  split at hreads
  · rename_i name found rest hread
    rw [Bool.and_eq_true, decide_eq_true_eq, decide_eq_true_eq] at hreads
    obtain ⟨rfl, rfl⟩ := hreads
    exact .value hread
  · cases hreads

/-- The thread has been answered with 201, and `text` was sealed and hashed. -/
def created (text : Bytes) (s : Config) : Bool :=
  status? s 0 = some 201 && (s.trace 0).filterMap sealedText? = [text] &&
    (s.trace 0).filterMap storedHash? = [hashHex server.pastes.sha256 text]

/-- A submission of `content` is accepted, and `text` is stored. -/
theorem run_created {content text : Bytes}
    (hperform : ((machine app).perform (fun _ _ => true) (invoked (submit content))
      submitting).any (created text) = true) :
    ∃ s response, (machine app).Run anyStep (.initial store) s ∧
      s.Returned 0 (.request (submit content)) (.response response) ∧ response.status = 201 ∧
      Stores server.pastes.sha256 text (s.trace 0) := by
  obtain ⟨s, hrest, hobs⟩ := Machine.exists_any_run hperform
  simp only [created, Bool.and_eq_true, decide_eq_true_eq] at hobs
  obtain ⟨⟨hstatus, hsealed⟩, hstored⟩ := hobs
  have hop : s.ops[0]? = some (.request (submit content)) := hrest.extends.op rfl
  obtain ⟨response, hreturned, hstatus⟩ := returned_of_status hop hstatus
  exact ⟨s, response, (run_invoked _).trans hrest, hreturned, hstatus, hsealed, hstored⟩

end Sample

/-- Neither bytes that are not UTF-8 nor a lone surrogate are refused: a submission of
either is answered with 201, and what is stored is a replacement character. -/
theorem malformed_stored :
    ∃ s response, (machine Sample.app).Run anyStep (.initial Sample.store) s ∧
      s.Returned 0 (.request (Sample.submit replacement)) (.response response) ∧
      response.status = 201 ∧
      Stores Sample.app.server.pastes.sha256 (BOM ++ replacement) (s.trace 0) ∧
      (Decodes (Sample.bodyOf [0xFF]) (Sample.submit replacement).body ∧
        submittedToken (Sample.bodyOf [0xFF]) = some [0xFF] ∧ valid [0xFF] = false) ∧
      Decodes (Sample.bodyOf (ascii "\\ud800")) (Sample.submit replacement).body ∧
      submittedToken (Sample.bodyOf (ascii "\\ud800")) = some (ascii "\\ud800") ∧
      hasUnpaired (ascii "\\ud800") = true := by
  obtain ⟨s, response, hrun, hreturned, hstatus, hstores⟩ :=
    @Sample.run_created replacement (BOM ++ replacement) (by decide +kernel)
  refine ⟨s, response, hrun, hreturned, hstatus, hstores, ⟨?_, by decide +kernel, by decide⟩, ?_,
    by decide +kernel, by decide +kernel⟩
  · exact Sample.decodes_of_readsContent (by decide +kernel)
  · exact Sample.decodes_of_readsContent (by decide +kernel)

/-- A submission of two letters. -/
theorem submitted_exactly_sample :
    ∃ s denoted, (machine Sample.app).Run anyStep (.initial Sample.store) s ∧
      Written denoted (ascii "hi") ∧
      Stores Sample.app.server.pastes.sha256 (withBOM denoted) (s.trace 0) := by
  obtain ⟨s, response, hrun, hreturned, hstatus, -⟩ :=
    @Sample.run_created (ascii "hi") (BOM ++ ascii "hi") (by decide +kernel)
  have hbody : Decodes (Sample.bodyOf (ascii "hi")) (Sample.submit (ascii "hi")).body :=
    Sample.decodes_of_readsContent (by decide +kernel)
  have htarget : targetOf (Sample.submit (ascii "hi")) = .api .createPaste := by decide
  have htoken : submittedToken (Sample.bodyOf (ascii "hi")) = some (ascii "hi") := by
    decide +kernel
  obtain ⟨denoted, hwritten, hstores⟩ := (submitted_exactly hrun hreturned htarget hstatus hbody
    htoken).2.mpr ⟨by decide, by decide +kernel⟩
  exact ⟨s, denoted, hrun, hwritten, hstores⟩

end SecurePastebin.Web
