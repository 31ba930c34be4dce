import ArticleArchive.Proofs.Ingest.Formats
import ArticleArchive.Proofs.Service.Hidden
import ArticleArchive.Proofs.Service.Partition
import ArticleArchive.Service.Http

namespace ArticleArchive

namespace Archive

variable {a : Archive} {now : DateTime} {r : SearchRequest} {o : SearchOutcome} {p : SearchPage}

theorem exists_search_of_none (ho : a.outcome now r = .ok o) (hnone : o.articles = [])
    (hpos : 1 ≤ a.settings.appliedLimit r.limit)
    (hlimit : a.settings.appliedLimit r.limit < 2 ^ (53 : Nat)) : ∃ p, a.search now r = .ok p := by
  have hhits : HitsOf o [] := by
    rw [HitsOf, hnone]
    exact .nil
  have htotal : o.articles.length < 2 ^ (53 : Nat) := by
    rw [hnone]
    decide
  obtain ⟨n, hn, -⟩ := Pagination.pageCount?_spec hpos hlimit htotal
  have hpage := pageOf_eq_cut hhits hn
  exact ⟨_, by rw [search, ho]; exact hpage⟩

end Archive

namespace Http

def answer (found : Except ArchiveError SearchPage) : Response :=
  match found with
  | .ok p => .found p.toJson (pageMeta p.pagination)
  | .error (.refused e) => .refused e
  | .error _ => .serverError

/-- The request is a search for a page of `q`, and leaves open the limit and whether articles of the
future are looked at. -/
structure Request.LeavesOpen (r : Request) (q : SearchRequest) : Prop where
  path : Endpoint.ofPath? r.path = some .search
  method : r.method.map Char.toUpper = Endpoint.search.method
  query : r.query = .ok q.query
  page : r.page = .ok q.page
  language : r.language = .ok q.language
  noLimit : r.params.lookup "limit".toList = none
  noFuture : r.params.lookup "include_future".toList = none
  limit : q.limit = none
  includeFuture : q.includeFuture = none

/-- What is put in the place of what a request leaves open. -/
def filledIn (q : SearchRequest) : SearchRequest :=
  { q with limit := some 10, includeFuture := some false }

variable {a : Archive} {now : DateTime} {r : Request} {q : SearchRequest}

theorem Request.param_of_lookup {α : Type} {name : String} (h : r.params.lookup name.toList = none)
    (absent : α) (read : Text → Reading α) : r.param name absent read = .ok absent := by
  rw [param, h]

theorem Request.LeavesOpen.search_eq (h : r.LeavesOpen q) : r.search = .ok (filledIn q) := by
  have hlimit : r.limit = .ok 10 := param_of_lookup h.noLimit _ _
  have hfuture : r.includeFuture = .ok false := param_of_lookup h.noFuture _ _
  simp [Request.search, h.query, h.page, h.language, hlimit, hfuture, Checked.apply, filledIn]

theorem Request.LeavesOpen.respond_eq (h : r.LeavesOpen q) (a : Archive) (now : DateTime) :
    respond a now r = (answer (a.search now (filledIn q)), a) := by
  rw [respond_of_ofPath h.path h.method]
  dsimp only
  rw [Http.search, h.search_eq]
  rfl

theorem exists_of_answer_eq {p : SearchPage} {found : Except ArchiveError SearchPage}
    (h : answer (.ok p) = answer found) : ∃ p', found = .ok p' ∧
      p'.pagination.limit = p.pagination.limit ∧ p'.pagination.total = p.pagination.total := by
  cases found with
  | ok p' =>
    obtain ⟨-, -, hlimit, htotal⟩ : p.toJson = p'.toJson ∧
        p.pagination.page = p'.pagination.page ∧ p.pagination.limit = p'.pagination.limit ∧
          (p.pagination.total : Int) = p'.pagination.total := by
      simpa [answer, Response.found, Response.ofJson, pageMeta, Json.ofFields] using h
    exact ⟨p', rfl, hlimit.symm, by omega⟩
  | error e =>
    have hstatus := congrArg Response.status h
    cases e <;> simp [answer, Response.found, Response.ofJson, Response.refused,
      Response.serverError] at hstatus

theorem settings_of_start {settings : Settings} {content : Option Text}
    (h : start settings content = .ok a) : a.settings = settings := by
  unfold start at h
  dsimp only at h
  split at h
  · obtain ⟨as, -, rfl⟩ := map_eq_ok_iff.mp h
    rfl
  · obtain rfl := Except.ok.inj h
    rfl
  · obtain ⟨as, -, rfl⟩ := map_eq_ok_iff.mp h
    rfl

theorem appliedLimit_ten (s : Settings) :
    s.appliedLimit (some 10) = s.appliedLimit none ↔ s.defaultLimit = 10 ∨ s.maxLimit < 10 := by
  unfold Settings.appliedLimit
  dsimp only
  split <;> omega

/-- Every request that leaves the limit and articles of the future open is answered by a search that
has them filled in from the settings. -/
def SettingsDecide (settings : Settings) : Prop :=
  ∀ content a now r q, start settings content = .ok a → Request.LeavesOpen r q →
    respond a now r = (answer (a.search now q), a)

theorem settingsDecide_of_eq {settings : Settings}
    (hlimit : settings.defaultLimit = 10 ∨ settings.maxLimit < 10)
    (hfuture : settings.includeFuture = false) : SettingsDecide settings := by
  intro content a now r q ha hr
  have hsettings := settings_of_start ha
  have hsearch : a.search now (filledIn q) = a.search now q := by
    refine Archive.search_congr rfl rfl ?_ ?_
    · rw [hr.limit, hsettings]
      exact (appliedLimit_ten settings).mpr hlimit
    · simp [Archive.asksForFuture, filledIn, hr.includeFuture, hsettings, hfuture]
  rw [hr.respond_eq, hsearch]

variable {env : List (Text × Text)}

theorem exists_page_of_none {o : SearchOutcome}
    (hsettings : a.settings = Settings.ofEnvironment env)
    (ho : a.outcome now (filledIn q) = .ok o) (hnone : o.articles = []) :
    ∃ p, a.search now (filledIn q) = .ok p := by
  obtain ⟨hpos, hle⟩ := Settings.limits_ofEnvironment env
  have hlimit : a.settings.appliedLimit (some 10) ≤ 10 := by
    rw [hsettings]
    unfold Settings.appliedLimit
    dsimp only
    split <;> omega
  refine Archive.exists_search_of_none ho hnone ?_ (Int.lt_of_le_of_lt hlimit (by decide))
  exact Archive.one_le_appliedLimit (by rwa [hsettings]) _

/-- Where the settings decide, a page that is found with ten and no article of the future put in
says about its search what the settings' own page says. -/
theorem SettingsDecide.exists_page {settings : Settings} {content : Option Text} {p : SearchPage}
    (h : SettingsDecide settings) (ha : start settings content = .ok a) (hr : r.LeavesOpen q)
    (hp : a.search now (filledIn q) = .ok p) :
    ∃ p', a.search now q = .ok p' ∧ p'.pagination.limit = p.pagination.limit ∧
      p'.pagination.total = p.pagination.total := by
  have hrespond := h content a now r q ha hr
  rw [hr.respond_eq, hp] at hrespond
  exact exists_of_answer_eq (congrArg Prod.fst hrespond)

theorem limit_of_settingsDecide (h : SettingsDecide (Settings.ofEnvironment env)) :
    (Settings.ofEnvironment env).defaultLimit = 10 ∨
      (Settings.ofEnvironment env).maxLimit < 10 := by
  let a : Archive := { settings := Settings.ofEnvironment env }
  let now : DateTime := .midnight Date.last
  let r : Request := { method := "GET".toList, path := "/search/".toList }
  let q : SearchRequest := { query := [] }
  have hr : r.LeavesOpen q := ⟨rfl, rfl, rfl, rfl, rfl, rfl, rfl, rfl, rfl⟩
  have hstart : start (Settings.ofEnvironment env) (some []) = .ok a := rfl
  have houtcome : a.outcome now (filledIn q) = .ok {} := rfl
  obtain ⟨p, hp⟩ := exists_page_of_none rfl houtcome rfl
  obtain ⟨p', hp', hlimit, -⟩ := h.exists_page hstart hr hp
  obtain ⟨-, -, -, hfilled⟩ := Archive.pagination_of_search hp
  obtain ⟨-, -, -, hopen⟩ := Archive.pagination_of_search hp'
  rw [hfilled, hopen] at hlimit
  exact (appliedLimit_ten _).mp hlimit.symm

def dayToCome : Date :=
  (Date.ofFields? 2024 1 2).get rfl

def fieldsToCome : List (Text × Json) :=
  [(Draft.idKey, .int 1), (Draft.titleKey, .str "t".toList),
    (Draft.createdAtKey, .str "2024-01-02".toList)]

def articleToCome : Article :=
  { id := 1, title := "t".toList, content := [], summary := [], category := none,
    createdAt := .midnight dayToCome, viewCount := 0, localizations := [] }

def fileToCome : Text :=
  "\x7b\"id\": 1, \"title\": \"t\", \"created_at\": \"2024-01-02\"\x7d".toList

theorem parse_fileToCome : Json.parse fileToCome = .ok (.obj fieldsToCome) := by
  let id : List (Text × Json) := [(Draft.idKey, .int 1)]
  let time : Text := " \"2024-01-02\"\x7d".toList
  let fromTime : Text := "\"created_at\":".toList ++ time
  let title : Text := " \"t\", ".toList ++ fromTime
  let fromTitle : Text := "\"title\":".toList ++ title
  have hid : Json.value? ("1, ".toList ++ fromTitle) = .ok (.int 1, ", ".toList ++ fromTitle) :=
    Json.value?_plain (by decide) (by decide) (by decide)
  have htitle : Json.value? (title.drop 1) = .ok (.str "t".toList, ", ".toList ++ fromTime) :=
    Json.value?_text _
  have htime : Json.value? (time.drop 1) = .ok (.str "2024-01-02".toList, ['\x7d']) :=
    Json.value?_text _
  have hfields : Json.fields? (fileToCome.drop 1) [] = .ok (fieldsToCome, []) := calc
    Json.fields? (fileToCome.drop 1) [] = Json.fields? fromTitle id :=
      Json.fields?_more (s := " 1, ".toList ++ fromTitle) rfl rfl hid rfl
    _ = Json.fields? fromTime (Json.setField Draft.titleKey (.str "t".toList) id) :=
      Json.fields?_more (s := title) rfl rfl htitle rfl
    _ = .ok (Json.setField Draft.createdAtKey (.str "2024-01-02".toList)
          (Json.setField Draft.titleKey (.str "t".toList) id), []) :=
      Json.fields?_last (s := time) rfl rfl htime rfl
    _ = .ok (fieldsToCome, []) := rfl
  exact Json.parse_of_value? (Json.value?_of_fields? hfields) rfl

theorem start_fileToCome (settings : Settings) :
    start settings (some fileToCome) = .ok { settings, articles := [articleToCome] } := by
  have hsource : Source.ofContent fileToCome = ⟨[.row fieldsToCome], none⟩ := by
    change Source.ofLines 1 [fileToCome] = _
    rw [Source.ofLines, Source.ofLine_of_object 1 (by decide) parse_fileToCome]
    rfl
  have hrows : (Ingestion.ofSource true ⟨[.row fieldsToCome], none⟩).result =
      .ok [articleToCome] := rfl
  have hload : start settings (some fileToCome) =
      Archive.load { settings } (Source.ofContent fileToCome) := rfl
  rw [hload, hsource, Archive.load, hrows]
  rfl

def searchToCome : SearchRequest :=
  { query := "views:0".toList }

def queryToCome : Query :=
  { views := [⟨.views, .eq, "0".toList⟩] }

theorem outcome_searchToCome {q : SearchRequest} {xs : List Article}
    (hq : q.query = searchToCome.query)
    (hvisible : a.visible now q.language (a.asksForFuture q) = xs)
    (hxs : xs = [] ∨ xs = [articleToCome]) :
    a.outcome now q = .ok { query := some queryToCome, articles := xs } := by
  have hcompile : Query.compile searchToCome.query = .ok queryToCome := Query.compile_views rfl
  have hexecute : queryToCome.execute xs = .ok xs := by
    rcases hxs with rfl | rfl <;> rfl
  have harrange : arrange? queryToCome.sort queryToCome.terms xs = some xs := by
    rcases hxs with rfl | rfl <;> simp [arrange?, arrangeBy?, queryToCome]
  apply Archive.outcome_eq_ok_iff.mpr
  show SearchOutcome.ofText q.query (a.visible now q.language (a.asksForFuture q)) = _
  rw [hvisible, hq]
  exact SearchOutcome.ofText_of_arrange rfl hcompile hexecute harrange

theorem includeFuture_of_settingsDecide (h : SettingsDecide (Settings.ofEnvironment env)) :
    (Settings.ofEnvironment env).includeFuture = false := by
  by_contra hfuture
  rw [Bool.not_eq_false] at hfuture
  let a : Archive := { settings := Settings.ofEnvironment env, articles := [articleToCome] }
  let now : DateTime := .midnight ⟨2024, 1, 1, by decide, by decide, by decide⟩
  let r : Request :=
    { method := "GET".toList, path := "/search/".toList
      params := [("q".toList, searchToCome.query)] }
  have hr : r.LeavesOpen searchToCome := ⟨rfl, rfl, rfl, rfl, rfl, rfl, rfl, rfl, rfl⟩
  have hhidden : a.visible now [] false = [] := by
    have hlater : ¬ articleToCome.createdAt.rank ≤ now.rank := by decide
    simp [Archive.visible, a, hlater]
  have hshown : a.visible now [] (a.asksForFuture searchToCome) = [articleToCome] := by
    have hasks : a.asksForFuture searchToCome = true := hfuture
    rw [hasks, Archive.visible_true]
    rfl
  have hfilled := outcome_searchToCome (q := filledIn searchToCome) rfl hhidden (.inl rfl)
  have hopen := outcome_searchToCome (q := searchToCome) rfl hshown (.inr rfl)
  obtain ⟨p, hp⟩ := exists_page_of_none rfl hfilled rfl
  obtain ⟨p', hp', -, htotal⟩ := h.exists_page (start_fileToCome _) hr hp
  obtain ⟨o, ho, hnone, -⟩ := Archive.pagination_of_search hp
  obtain ⟨o', ho', hone, -⟩ := Archive.pagination_of_search hp'
  obtain rfl := Except.ok.inj (ho.symm.trans hfilled)
  obtain rfl := Except.ok.inj (ho'.symm.trans hopen)
  rw [hnone, hone] at htotal
  simp at htotal

/-- A request that leaves the limit and articles of the future open is answered by a search for ten
articles and none of the future. The settings decide instead if and only if they come to the same:
the default limit is ten or ten is more than the greatest limit, and the future is left out. -/
theorem settingsDecide_iff (env : List (Text × Text)) :
    (∀ content a now r q, start (Settings.ofEnvironment env) content = .ok a →
      Request.LeavesOpen r q → respond a now r =
        (answer (a.search now { q with limit := some 10, includeFuture := some false }), a)) ∧
    (SettingsDecide (Settings.ofEnvironment env) ↔
      ((Settings.ofEnvironment env).defaultLimit = 10 ∨
        (Settings.ofEnvironment env).maxLimit < 10) ∧
        (Settings.ofEnvironment env).includeFuture = false) :=
  ⟨fun _ a now _ _ _ hr => hr.respond_eq a now,
    fun h => ⟨limit_of_settingsDecide h, includeFuture_of_settingsDecide h⟩,
    fun h => settingsDecide_of_eq h.1 h.2⟩

/-- A default limit of five is not in force. -/
theorem not_settingsDecide_of_five :
    let env := [(Settings.defaultLimitVariable, "5".toList)]
    let a : Archive := { settings := Settings.ofEnvironment env }
    let now : DateTime := .midnight Date.last
    let r : Request := { method := "GET".toList, path := "/search/".toList }
    a.settings.defaultLimit = 5 ∧ start a.settings (some []) = .ok a ∧ r.LeavesOpen { query := [] } ∧
      respond a now r = (answer (a.search now
        { query := [], limit := some 10, includeFuture := some false }), a) ∧
      ¬ SettingsDecide a.settings := by
  intro env a now r
  have hdefault : a.settings.defaultLimit = 5 := rfl
  have hmax : a.settings.maxLimit = 100 := rfl
  have hr : r.LeavesOpen { query := [] } := ⟨rfl, rfl, rfl, rfl, rfl, rfl, rfl, rfl, rfl⟩
  obtain ⟨hrespond, hiff⟩ := settingsDecide_iff env
  refine ⟨hdefault, rfl, hr, hrespond (some []) a now r _ rfl hr, fun h => ?_⟩
  obtain ⟨hlimit, -⟩ := hiff.mp h
  rw [hdefault, hmax] at hlimit
  omega

end Http

end ArticleArchive
