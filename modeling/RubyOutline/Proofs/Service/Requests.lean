/-
RubyOutline/Proofs/Service/Requests.lean

Requests one after the other.  A request brings a document, inline or as a file to be loaded, and
while it is parsed other clients edit the store.  What is to be said of one exchange is a property
of the exchange alone, whatever stood in the store before (`Exchange.Correct`): the request fails
as it could not be loaded, or it is answered for the document that it stored, by the version that
stands under its URI after the parse.

One request makes a correct exchange out of any service (`Service.correct_exchange`), and a run of
requests is a chain of them; so nothing that has happened before matters
(`Service.exchanges_correct`).  A request is answered unless its path begins with a tilde and the
name of nobody.  That it does can be seen only once the path has been read: a dot and a slash in
front of the tilde say nothing, and it is as if they were not there.
-/
import Mathlib.Data.List.Chain
import RubyOutline.Proofs.DocumentFile
import RubyOutline.Proofs.Service.Answers

namespace RubyOutline

open DocumentStore

/-! ### Requests and exchanges -/

/-- A request for an outline, with the edits that other clients make while it is parsed. -/
inductive Request
  | source (document : Document) (edits : List Edit)
  | file (fs : FileSystem) (path : String) (edits : List Edit)

namespace Request

/-- The URI that a failure is reported under. -/
def uri : Request → String
  | .source d _ => d.uri
  | .file _ path _ => path

/-- The version that a failure is reported under. -/
def version : Request → Int
  | .source d _ => d.version
  | .file _ _ _ => 0

def edits : Request → List Edit
  | .source _ edits | .file _ _ edits => edits

/-- The document that a request stores. -/
def load (limit : SizeLimit) : Request → Except HomeError (Except OutlineError Document)
  | .source d _ => .ok (.ok d)
  | .file fs path _ => DocumentFile.load fs fs (.ofString path) (some limit)

/-- A request does not ask for the home of nobody. -/
def HomeKnown : Request → Prop
  | .source _ _ => True
  | .file fs path _ => ∃ expanded, fs.expandHome (.ofString path) = .ok expanded

end Request

/-- A request with its answer, and the service before and after. -/
structure Exchange where
  before : Service
  request : Request
  answer : Except HomeError Response
  after : Service

namespace Service

/-- The answer to a request. -/
def answer (s : Service) (grammar : Grammar) : Request → Except HomeError (Response × Service)
  | .source d edits => .ok (s.outlineSource grammar d edits)
  | .file fs path edits => s.outlineFile grammar fs path edits

/-- One request.  If it is not answered, then nothing has been stored. -/
def exchange (s : Service) (grammar : Grammar) (request : Request) : Exchange :=
  match s.answer grammar request with
  | .ok (response, after) => ⟨s, request, .ok response, after⟩
  | .error e => ⟨s, request, .error e, s⟩

/-- Requests one after the other. -/
def exchanges (s : Service) (grammar : Grammar) : List Request → List Exchange
  | [] => []
  | request :: requests =>
    let x := s.exchange grammar request
    x :: x.after.exchanges grammar requests

end Service

/-- The response of a service to a request that has stored a document, by the version that stands
under its URI after the parse.  An outline is named after the document, and a request that was
superseded after the request. -/
def Response.ofStored (s : Service) (parse : Source → ParseNode) (uri : String) (d : Document)
    (current : Option Int) : Response :=
  if current = some d.version then
    ⟨d.uri, d.version,
      .ok (outline s.table
          ((Converter.ofSource d.source s.settings.parser.positionEncoding).convertTree
            (parse d.source)))
        ((parse d.source).recoveries.map (·.message d.uri))⟩
  else ⟨uri, d.version, .superseded (OutlineError.superseded d.uri d.version current).message⟩

/-- A request fails if its document cannot be loaded, and otherwise is answered for it.  Nothing but
the document and the edits of the others changes the store. -/
structure Exchange.Correct (parse : Source → ParseNode) (x : Exchange) : Prop where
  answered : (∃ response, x.answer = .ok response) ↔ x.request.HomeKnown
  settings : x.after.settings = x.before.settings
  failed : ∀ e, x.request.load x.before.sizeLimit = .ok (.error e) →
    x.answer = .ok ⟨x.request.uri, x.request.version, .error e.message⟩ ∧
      x.after.store = x.before.store
  loaded : ∀ d, x.request.load x.before.sizeLimit = .ok (.ok d) →
    x.answer = .ok
        (.ofStored x.before parse x.request.uri d (x.after.store.version? d.uri)) ∧
      x.after.store = (x.before.store.set d).applyAll x.request.edits
  status : ∀ response, x.answer = .ok response →
    (response.status = "error" ↔ ∃ e, x.request.load x.before.sizeLimit = .ok (.error e)) ∧
    (response.status ≠ "ok" → response.symbols = [] ∧ response.parseErrors = []) ∧
    (response.message.isSome ↔ response.status ≠ "ok")
  untouched : ∀ uri, (∀ d, x.request.load x.before.sizeLimit = .ok (.ok d) → uri ≠ d.uri) →
    (∀ e ∈ x.request.edits, e.settles? uri = none) →
    x.after.store.get? uri = x.before.store.get? uri

/-! ### Responses by their status -/

namespace Response

theorem contents_of_status (r : Response) (h : r.status ≠ "ok") :
    r.symbols = [] ∧ r.parseErrors = [] := by
  obtain ⟨uri, version, outcome⟩ := r
  cases outcome with
  | ok symbols parseErrors => exact absurd rfl h
  | superseded message => exact ⟨rfl, rfl⟩
  | error message => exact ⟨rfl, rfl⟩

theorem isSome_message_iff (r : Response) : r.message.isSome ↔ r.status ≠ "ok" := by
  obtain ⟨uri, version, outcome⟩ := r
  cases outcome with
  | ok symbols parseErrors => simp [message, status]
  | superseded message => simp [Response.message, status]
  | error message => simp [Response.message, status]

theorem status_ofStored (s : Service) (parse : Source → ParseNode) (uri : String) (d : Document)
    (current : Option Int) : (ofStored s parse uri d current).status ≠ "error" := by
  rw [ofStored]
  split <;> simp [status]

end Response

/-! ### One request -/

namespace Service

variable {parse : Source → ParseNode}

/-- A stored document is outlined unless another version has taken its place. -/
theorem outlineDocument_eq (s : Service) (parse : Source → ParseNode) (d : Document)
    (edits : List Edit) :
    let store := (s.store.set d).applyAll edits
    s.outlineDocument (.available parse) d edits =
      (Outliner.finish store (s.outliner.outline d (parse d.source)), { s with store }) := by
  simp only [outlineDocument, Outliner.handle_set]

theorem ofResult_finish_outline (s : Service) (parse : Source → ParseNode) (d : Document)
    (store : DocumentStore) (uri : String) (version : Int) :
    Response.ofResult uri version
        (Outliner.finish store (s.outliner.outline d (parse d.source))) =
      .ofStored s parse uri d (store.version? d.uri) := by
  by_cases hversion : store.version? d.uri = some d.version
  · have hfinish : Outliner.finish store (s.outliner.outline d (parse d.source)) =
        .ok (s.outliner.outline d (parse d.source)) := if_pos hversion
    rw [hfinish, Response.ofStored, if_pos hversion]
    rfl
  · have hfinish : Outliner.finish store (s.outliner.outline d (parse d.source)) =
        .error (.superseded d.uri d.version (store.version? d.uri)) := if_neg hversion
    rw [hfinish, Response.ofStored, if_neg hversion]
    rfl

/-- A document that cannot be loaded is reported under the request. -/
theorem ofResult_load {fs fs' : FileSystem} {path : Path} {limit : Option SizeLimit}
    {e : OutlineError} (h : DocumentFile.load fs fs' path limit = .ok (.error e)) (uri : String)
    (version : Int) :
    Response.ofResult uri version (.error e) = ⟨uri, version, .error e.message⟩ := by
  cases e with
  | superseded u expected actual =>
    -- the only failure that would be reported otherwise
    rw [DocumentFile.load] at h
    cases hpath : fs.expandHome path with
    | error e =>
      rw [hpath] at h
      cases h
    | ok path' =>
      rw [hpath] at h
      exact absurd (Except.ok.inj h) (DocumentFile.loadAt_ne_superseded _ _ _ _ _ _ _)
  | _ => rfl

/-- A request by what becomes of loading its document. -/
theorem exchange_eq (s : Service) (parse : Source → ParseNode) (request : Request) :
    s.exchange (.available parse) request =
      match request.load s.sizeLimit with
      | .error e => ⟨s, request, .error e, s⟩
      | .ok (.error e) => ⟨s, request, .ok ⟨request.uri, request.version, .error e.message⟩, s⟩
      | .ok (.ok d) =>
        let store := (s.store.set d).applyAll request.edits
        ⟨s, request, .ok (.ofStored s parse request.uri d (store.version? d.uri)),
          { s with store }⟩ := by
  rw [exchange]
  cases request with
  | source d edits =>
    rw [answer, outlineSource, outlineDocument_eq]
    simp only [ofResult_finish_outline]
    rfl
  | file fs path edits =>
    rw [answer, outlineFile, Request.load]
    cases hload : DocumentFile.load fs fs (.ofString path) (some s.sizeLimit) with
    | error e => rfl
    | ok loaded =>
      cases loaded with
      | error e =>
        simp only [Except.map, ofResult_load hload]
        rfl
      | ok d =>
        simp only [Except.map, outlineDocument_eq, ofResult_finish_outline]
        rfl

/-- Loading has a result unless the path asks for the home of nobody. -/
theorem exists_load_iff (request : Request) (limit : SizeLimit) :
    (∃ loaded, request.load limit = .ok loaded) ↔ request.HomeKnown := by
  cases request with
  | source d edits => exact ⟨fun _ => trivial, fun _ => ⟨_, rfl⟩⟩
  | file fs path edits =>
    rw [Request.load, DocumentFile.load, Request.HomeKnown]
    cases fs.expandHome (.ofString path) with
    | error e =>
      constructor
      · rintro ⟨_, h⟩
        cases h
      · rintro ⟨_, h⟩
        cases h
    | ok expanded => exact ⟨fun _ => ⟨_, rfl⟩, fun _ => ⟨_, rfl⟩⟩

variable {s : Service} {request : Request}

/-- Without an answer nothing has changed. -/
theorem correct_of_load_error {e : HomeError} (hload : request.load s.sizeLimit = .error e) :
    Exchange.Correct parse ⟨s, request, .error e, s⟩ := by
  have hunknown : ¬ request.HomeKnown := by
    rw [← exists_load_iff request s.sizeLimit, hload]
    rintro ⟨_, h⟩
    cases h
  refine ⟨⟨?_, fun h => absurd h hunknown⟩, rfl, fun e' he' => ?_, fun d hd => ?_,
    fun response hresponse => ?_, fun uri _ _ => rfl⟩
  · rintro ⟨_, h⟩
    cases h
  · cases hload.symm.trans he'
  · cases hload.symm.trans hd
  · cases hresponse

/-- Nor has it if the document cannot be loaded. -/
theorem correct_of_load_failed {e : OutlineError}
    (hload : request.load s.sizeLimit = .ok (.error e)) :
    Exchange.Correct parse
      ⟨s, request, .ok ⟨request.uri, request.version, .error e.message⟩, s⟩ := by
  have hknown : request.HomeKnown := (exists_load_iff request s.sizeLimit).1 ⟨_, hload⟩
  refine ⟨⟨fun _ => hknown, fun _ => ⟨_, rfl⟩⟩, rfl, fun e' he' => ?_, fun d hd => ?_,
    fun response hresponse => ?_, fun uri _ _ => rfl⟩
  · cases hload.symm.trans he'
    exact ⟨rfl, rfl⟩
  · cases hload.symm.trans hd
  · obtain rfl := Except.ok.inj hresponse
    exact ⟨⟨fun _ => ⟨e, hload⟩, fun _ => rfl⟩, Response.contents_of_status _,
      Response.isSome_message_iff _⟩

/-- A document that has been loaded is stored, and answered for by what is stored in the end. -/
theorem correct_of_load_ok {d : Document} (hload : request.load s.sizeLimit = .ok (.ok d)) :
    let store := (s.store.set d).applyAll request.edits
    Exchange.Correct parse
      ⟨s, request, .ok (.ofStored s parse request.uri d (store.version? d.uri)),
        { s with store }⟩ := by
  intro store
  have hknown : request.HomeKnown := (exists_load_iff request s.sizeLimit).1 ⟨_, hload⟩
  refine ⟨⟨fun _ => hknown, fun _ => ⟨_, rfl⟩⟩, rfl, fun e he => ?_, fun d' hd' => ?_,
    fun response hresponse => ?_, fun uri huri hedits => ?_⟩
  · cases hload.symm.trans he
  · cases hload.symm.trans hd'
    exact ⟨rfl, rfl⟩
  · obtain rfl := Except.ok.inj hresponse
    refine ⟨⟨fun hstatus => absurd hstatus (Response.status_ofStored _ _ _ _ _), ?_⟩,
      Response.contents_of_status _, Response.isSome_message_iff _⟩
    rintro ⟨e, he⟩
    cases hload.symm.trans he
  · show store.get? uri = s.store.get? uri
    rw [get?_applyAll_of_untouched hedits, get?_set, if_neg (huri d hload)]

/-- **One request makes a correct exchange**, whatever has happened before. -/
theorem correct_exchange (s : Service) (parse : Source → ParseNode) (request : Request) :
    (s.exchange (.available parse) request).Correct parse := by
  rw [exchange_eq]
  cases hload : request.load s.sizeLimit with
  | error e => exact correct_of_load_error hload
  | ok loaded =>
    cases loaded with
    | error e => exact correct_of_load_failed hload
    | ok d => exact correct_of_load_ok hload

/-! ### A run of requests -/

theorem request_exchange (s : Service) (grammar : Grammar) (request : Request) :
    (s.exchange grammar request).request = request := by
  rw [exchange]
  split <;> rfl

theorem before_exchange (s : Service) (grammar : Grammar) (request : Request) :
    (s.exchange grammar request).before = s := by
  rw [exchange]
  split <;> rfl

theorem map_request_exchanges (s : Service) (grammar : Grammar) (requests : List Request) :
    (s.exchanges grammar requests).map (·.request) = requests := by
  induction requests generalizing s with
  | nil => rfl
  | cons request requests ih =>
    rw [exchanges, List.map_cons, ih, request_exchange]

/-- Each exchange begins where the one before has ended. -/
theorem isChain_exchanges (s : Service) (grammar : Grammar) (requests : List Request) :
    (∀ x ∈ (s.exchanges grammar requests).head?, x.before = s) ∧
      (s.exchanges grammar requests).IsChain fun x y => x.after = y.before := by
  induction requests generalizing s with
  | nil => simp [exchanges]
  | cons request requests ih =>
    obtain ⟨hhead, hchain⟩ := ih (s.exchange grammar request).after
    refine ⟨?_, hchain.cons fun y hy => (hhead y hy).symm⟩
    rintro x ⟨⟩
    exact before_exchange s grammar request

theorem correct_of_mem_exchanges (s : Service) (parse : Source → ParseNode)
    (requests : List Request) :
    ∀ x ∈ s.exchanges (.available parse) requests, x.Correct parse := by
  induction requests generalizing s with
  | nil => exact fun x hx => nomatch hx
  | cons request requests ih =>
    exact List.forall_mem_cons.2 ⟨correct_exchange s parse request, ih _⟩

/-- **Every exchange of every run is correct**, and begins with what the one before has left. -/
theorem exchanges_correct (s : Service) (parse : Source → ParseNode) (requests : List Request) :
    let xs := s.exchanges (.available parse) requests
    xs.map (·.request) = requests ∧ (∀ x ∈ xs.head?, x.before = s) ∧
      (xs.IsChain fun x y => x.after = y.before) ∧ ∀ x ∈ xs, x.Correct parse := by
  intro xs
  obtain ⟨hhead, hchain⟩ := isChain_exchanges s (.available parse) requests
  exact ⟨map_request_exchanges s _ requests, hhead, hchain,
    correct_of_mem_exchanges s parse requests⟩

/-! ### Paths without a tilde -/

/-- A path that does not begin with a tilde asks for no home. -/
theorem homeKnown_of_no_tilde (fs : FileSystem) {path : String} (edits : List Edit)
    (h : ∀ first ∈ (Path.ofString path).parts.head?, first.toList.head? ≠ some '~') :
    (Request.file fs path edits).HomeKnown := by
  refine ⟨.ofString path, Path.expandHome_eq_self fs ?_⟩
  rintro ⟨-, first, hfirst, htilde⟩
  exact h first hfirst htilde

/-- A folder with one file in it. -/
def oneFile : FileSystem where
  here := ["work"]
  files := [(["work", "a.rb"], ⟨[0x61], 7⟩)]

/-- A source that is superseded, a file that is not there, and one whose document is deleted under
another URI only. -/
def threeRequests : List Request :=
  [.source ⟨"untitled:a.rb", .ofString "a", 1⟩ [.set ⟨"untitled:a.rb", .ofString "b", 2⟩],
    .file oneFile "missing.rb" [.clear], .file oneFile "./a.rb" [.delete "untitled:a.rb"]]

theorem exchanges_correct_threeRequests :
    let xs := standard.exchanges (.available Outliner.unreadable) threeRequests
    start {} = .accepted standard ∧
      xs.map (·.answer.toOption.map (·.status)) = [some "superseded", some "error", some "ok"] ∧
      xs.map (·.request) = threeRequests ∧ ∀ x ∈ xs, x.Correct Outliner.unreadable := by
  intro xs
  obtain ⟨hrequests, -, -, hcorrect⟩ :=
    exchanges_correct standard Outliner.unreadable threeRequests
  exact ⟨start_default, rfl, hrequests, hcorrect⟩

/-- The text of a path does not begin with a tilde, and yet nobody's home is asked for: there is no
answer, not even that the file cannot be loaded. -/
theorem not_answered_tildeAfterDot :
    let path := "./~nosuchuser_zz/a.rb"
    start {} = .accepted standard ∧ path.toList.head? ≠ some '~' ∧
    (standard.exchanges (.available Outliner.unreadable) [.file oneFile path []]).map
      (·.answer.toOption.isSome) = [false] := by
  intro path
  have hhome : oneFile.expandHome (.ofString path) = .error ⟨"nosuchuser_zz"⟩ := by decide
  have hload : (Request.file oneFile path []).load standard.sizeLimit =
      .error ⟨"nosuchuser_zz"⟩ := by
    rw [Request.load, DocumentFile.load, hhome]
    rfl
  refine ⟨start_default, by decide, ?_⟩
  rw [exchanges, exchange_eq, hload]
  rfl

end Service

end RubyOutline
