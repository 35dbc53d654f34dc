import PenPlot.Proofs.Balance
import PenPlot.Session

/-!
# What a trace tells

A trace holds the reports of all passes, one behind the other, each under the number of its pass. The
elements that a report lists are those of the document in the order of their tags, each with the number
of containers around it: all of them if the pass comes to the end of the document, and otherwise those
up to the fault. The counts that close a report are counts of its lines.
-/

namespace PenPlot

/-! ## Elements in order -/

/-- The elements of markup in order, each with the number of containers around it. What a shape holds is
none of them. -/
def Markup.inOrder (depth : Nat) (markup : Markup) : List Visit :=
  match h : markup.take? with
  | .error _ => []
  | .ok none => []
  | .ok (some (element, rest)) =>
    have := length_take?_lt h
    let inside := match element.kind with
      | .container _ => inOrder (depth + 1) element.content
      | _ => []
    ⟨element.kind, element.attributes, depth⟩ :: (inside ++ inOrder depth rest)
termination_by markup.tags.length

theorem Markup.inOrder_of_some {markup rest : Markup} {element : Element}
    (h : markup.take? = .ok (some (element, rest))) (depth : Nat) :
    markup.inOrder depth = ⟨element.kind, element.attributes, depth⟩ ::
      ((match element.kind with
        | .container _ => inOrder (depth + 1) element.content
        | _ => []) ++ inOrder depth rest) := by
  rw [inOrder]
  split
  · simp_all
  · simp_all
  · next other behind hother =>
    rw [h] at hother
    cases hother
    rfl

variable {α σ : Type} [Scalar α]

/-- Just the content of containers is visited, with one more container around it. -/
theorem Station.inner_of_evaluate {sheet : Sheet α} {station : Station α}
    {inner? : Option (Surroundings α)} (h : (station.evaluate sheet).result = .ok inner?) :
    (∃ kind inner, station.kind = .container kind ∧ inner? = some inner ∧
        inner.depth = station.around.depth + 1) ∨
      (∀ kind, station.kind ≠ .container kind) ∧ inner? = none := by
  obtain ⟨kind, attributes, around⟩ := station
  cases kind with
  | container kind =>
    obtain ⟨own, -, hinner⟩ := Reading.result_bind_eq_ok.1 h
    cases hinner
    exact .inl ⟨kind, _, rfl, rfl, rfl⟩
  | shape kind =>
    right
    constructor
    · intro other hother
      cases hother
    · simp only [evaluate] at h
      split at h
      · obtain ⟨own, -, h⟩ := Reading.result_bind_eq_ok.1 h
        obtain ⟨commands, -, h⟩ := Reading.result_bind_eq_ok.1 h
        cases h
        rfl
      · cases h
        rfl
  | unrecognized =>
    right
    constructor
    · intro other hother
      cases hother
    · cases h
      rfl

/-- The elements that a route takes are the first in order, and all of them if it comes to the end. -/
theorem Route.visits_ofMarkup (sheet : Sheet α) (around : Surroundings α) (markup : Markup) :
    (ofMarkup sheet around markup).taken.map Station.visit <+: markup.inOrder around.depth ∧
      ((ofMarkup sheet around markup).stop = none →
        (ofMarkup sheet around markup).taken.map Station.visit = markup.inOrder around.depth) := by
  fun_induction ofMarkup sheet around markup with
  | case1 around markup flaw htake =>
    refine ⟨List.nil_prefix, ?_⟩
    intro hnone
    cases hnone
  | case2 around markup htake =>
    have hnil : markup.inOrder around.depth = [] := by
      rw [Markup.inOrder]
      split <;> simp_all
    rw [hnil]
    exact ⟨List.nil_prefix, fun _ => rfl⟩
  | case3 around markup element rest htake _ station fault hfault =>
    rw [Markup.inOrder_of_some htake]
    refine ⟨List.cons_prefix_cons.2 ⟨rfl, List.nil_prefix⟩, ?_⟩
    intro hnone
    cases hnone
  | case4 around markup element rest htake _ station hok ih =>
    obtain ⟨hbegins, hall⟩ := ih
    have hinside : ∀ kind, element.kind ≠ .container kind := by
      rcases Station.inner_of_evaluate hok with ⟨kind, inner, -, hnone, -⟩ | ⟨hkind, -⟩
      · cases hnone
      · exact hkind
    have horder : markup.inOrder around.depth = station.visit :: rest.inOrder around.depth := by
      rw [Markup.inOrder_of_some htake]
      split
      · next kind hkind => exact absurd hkind (hinside kind)
      · rfl
    rw [horder, taken_push, List.map_cons]
    refine ⟨List.cons_prefix_cons.2 ⟨rfl, hbegins⟩, ?_⟩
    intro hstop
    rw [hall hstop]
  | case5 around markup element rest htake _ station inner hok ihinner ihrest =>
    -- A station that hands on inner surroundings is a container, so its content is in order as well.
    obtain ⟨hinnerBegins, hinnerAll⟩ := ihinner
    obtain ⟨hrestBegins, hrestAll⟩ := ihrest
    obtain ⟨kind, hkind, hdepth⟩ : ∃ kind, element.kind = .container kind ∧
        inner.depth = around.depth + 1 := by
      rcases Station.inner_of_evaluate hok with ⟨kind, _, hkind, hinner, hdepth⟩ | ⟨-, hnone⟩
      · cases hinner
        exact ⟨kind, hkind, hdepth⟩
      · cases hnone
    have horder : markup.inOrder around.depth =
        station.visit :: (element.content.inOrder inner.depth ++ rest.inOrder around.depth) := by
      rw [Markup.inOrder_of_some htake, hkind, hdepth]
      rw [show station.visit = ⟨element.kind, element.attributes, around.depth⟩ from rfl, hkind]
    rw [horder, taken_push, List.map_cons]
    cases hstop : (ofMarkup sheet inner element.content).stop with
    | some stop =>
      -- The route ends inside the container, and what is behind it is not listed.
      rw [append_of_stop hstop]
      refine ⟨List.cons_prefix_cons.2 ⟨rfl, hinnerBegins.trans (List.prefix_append _ _)⟩, ?_⟩
      intro hnone
      cases hstop.symm.trans hnone
    | none =>
      rw [taken_append hstop, List.map_append, hinnerAll hstop]
      refine ⟨List.cons_prefix_cons.2 ⟨rfl, (List.prefix_append_right_inj _).2 hrestBegins⟩, ?_⟩
      intro hnone
      rw [append_of_none hstop] at hnone
      rw [hrestAll hnone]

/-! ## Counts by name -/

namespace Census

/-- Nothing is there that was not counted. -/
def Positive (census : Census) : Prop := ∀ entry ∈ census, 0 < entry.2

theorem positive_nil : Positive [] := List.forall_mem_nil _

theorem Positive.add {census : Census} (h : census.Positive) (name : String) {n : Nat} (hn : 0 < n) :
    (census.add name n).Positive := by
  induction census with
  | nil => exact List.forall_mem_singleton.2 hn
  | cons first census ih =>
    obtain ⟨other, m⟩ := first
    obtain ⟨hfirst, hrest⟩ := List.forall_mem_cons.1 h
    rw [Census.add]
    split
    · exact List.forall_mem_cons.2 ⟨Nat.add_pos_right m hn, hrest⟩
    · split
      · exact List.forall_mem_cons.2 ⟨hn, h⟩
      · exact List.forall_mem_cons.2 ⟨hfirst, ih hrest⟩

/-- A name is there once if something was counted under it, and not at all if nothing was. -/
theorem filter_eq {census : Census} (hordered : census.Ordered) (hpositive : census.Positive)
    (name : String) : census.filter (fun entry => entry.1 == name) =
      if census.count name = 0 then [] else [(name, census.count name)] := by
  induction census with
  | nil => rfl
  | cons first census ih =>
    obtain ⟨hfirst, hrest⟩ := List.pairwise_cons.1 hordered
    obtain ⟨hn, hothers⟩ := List.forall_mem_cons.1 hpositive
    rw [count_cons]
    by_cases hname : name = first.1
    · -- All other names come behind this one.
      have hnone : census.filter (fun entry => entry.1 == name) = [] := by
        rw [List.filter_eq_nil_iff]
        intro entry hentry heq
        have hlt := hfirst entry hentry
        rw [eq_of_beq heq, hname] at hlt
        exact String.lt_irrefl _ hlt
      rw [if_pos hname, if_neg (Nat.ne_of_gt hn), List.filter_cons_of_pos (by simp [hname]), hnone,
        hname]
    · rw [if_neg hname, List.filter_cons_of_neg (by simp [Ne.symm hname]), ih hrest hothers]

end Census

namespace Station

omit [Scalar α] in
/-- What is counted under a name are the elements that have it. -/
theorem count_byElement_foldl (stations : List (Station α)) {tally : Tally}
    (h : tally.byElement.Ordered) (name : String) :
    (stations.foldl count tally).byElement.count name =
      tally.byElement.count name + stations.countP fun station => station.kind.name == name := by
  induction stations generalizing tally with
  | nil => rfl
  | cons station stations ih =>
    have hordered : (count tally station).byElement.Ordered := by
      rw [byElement_count]
      exact h.add _ 1
    rw [List.foldl_cons, ih hordered, byElement_count, Census.count_add h, List.countP_cons]
    by_cases hname : name = station.kind.name
    · simp [hname]
      omega
    · simp [hname, Ne.symm hname]

omit [Scalar α] in
theorem positive_byElement_foldl (stations : List (Station α)) {tally : Tally}
    (h : tally.byElement.Positive) : (stations.foldl count tally).byElement.Positive := by
  induction stations generalizing tally with
  | nil => exact h
  | cons station stations ih =>
    refine ih ?_
    rw [byElement_count]
    exact h.add _ Nat.one_pos

end Station

/-- Counts by name are reported behind all others, which have other names. -/
theorem Tally.filter_entries (tally : Tally) (name : String) :
    tally.entries.filter (fun entry => entry.1 == "element." ++ name) =
      (tally.byElement.filter fun entry => entry.1 == name).map
        fun (name, n) => ("element." ++ name, n) := by
  have hother : ∀ other : String, other.toList.head? ≠ some 'e' → other ≠ "element." ++ name := by
    rintro other hother rfl
    rw [String.toList_append] at hother
    exact hother rfl
  have hsame : ∀ other : String, ("element." ++ other == "element." ++ name) = (other == name) := by
    intro other
    rw [Bool.eq_iff_iff, beq_iff_eq, beq_iff_eq]
    exact String.append_right_inj _
  rw [entries, List.filter_append, List.filter_eq_nil_iff.2, List.nil_append, List.filter_map]
  · exact congrArg (List.map _) (List.filter_congr fun entry _ => hsame entry.1)
  · simp only [List.forall_mem_cons, beq_iff_eq]
    refine ⟨hother _ ?_, hother _ ?_, hother _ ?_, hother _ ?_, hother _ ?_, hother _ ?_, hother _ ?_,
      nofun⟩
    all_goals decide

/-! ## Lines of a report -/

namespace TraceLine

/-- The line is that of an element with a name. -/
def isElement (name : String) (line : TraceLine) : Bool :=
  line.kind == "svgpen.element" && line.members.contains ("element", .text name.toList)

theorem isElement_ofVisit (number : Nat) (visit : Visit) (name : String) :
    (ofVisit number visit).isElement name = (visit.kind.name == name) := by
  rw [Bool.eq_iff_iff, beq_iff_eq, ofVisit, ofElement]
  simp [isElement, String.toList_inj, eq_comm]

end TraceLine

/-- The lines report a pass over a document under a number. -/
structure IsReport (sheet : Sheet Float) (document : List Char) (number : Nat)
    (lines : List TraceLine) : Prop where
  /-- There is a line for each element that is taken, with its name, its attributes without the blanks
  around them and the number of containers around it, then one for the fault if there is one, with its
  wording, and then one with the counts. -/
  pieces : lines =
    ((Route.ofText sheet document).taken.map Station.visit).map (fun visit =>
        { kind := "svgpen.element", pass := number
          members := [("depth", .number visit.depth), ("element", .text visit.kind.name.toList),
            ("attributes", .text (Text.trim visit.attributes))] }) ++
      (match (Pass.ofText sheet document).result with
        | .error fault =>
          [{ kind := "svgpen.error", pass := number
             members := [("message", .text fault.message.toList)] }]
        | .ok _ => []) ++
      [{ kind := "svgpen.summary", pass := number
         members := [("counts", .counts (Pass.ofText sheet document).tally.entries)] }]
  /-- The counts are those of what became of the elements and of what the pen was sent, and then those of
  elements by name. -/
  totals : (Pass.ofText sheet document).tally.entries =
    [("containers", (Pass.ofText sheet document).tally.containers),
      ("shapes", (Pass.ofText sheet document).tally.shapes),
      ("orphaned_shapes", (Pass.ofText sheet document).tally.orphanedShapes),
      ("unrecognized", (Pass.ofText sheet document).tally.unrecognized),
      ("moves", (Pass.ofText sheet document).commands.countP (!PenCommand.isDraw ·)),
      ("draws", (Pass.ofText sheet document).commands.countP PenCommand.isDraw),
      ("suppressed", (Pass.ofText sheet document).tally.pen.suppressed)] ++
    (Pass.ofText sheet document).tally.byElement.map fun (name, n) => ("element." ++ name, n)
  numbered : ∀ line ∈ lines, line.pass = number
  /-- The elements that are taken are the first of the document. -/
  inOrder : (Route.ofText sheet document).taken.map Station.visit <+: Markup.inOrder 0 (.scan document)
  /-- They are all of them if the pass comes to the end. -/
  complete : ∀ tally, (Pass.ofText sheet document).result = .ok tally →
    (Route.ofText sheet document).taken.map Station.visit = Markup.inOrder 0 (.scan document)
  /-- A count is that of the lines with a name, and a name without lines has none. -/
  counted : ∀ name, (Pass.ofText sheet document).tally.entries.filter
      (fun entry => entry.1 == "element." ++ name) =
    if lines.countP (·.isElement name) = 0 then []
    else [("element." ++ name, lines.countP (·.isElement name))]
  /-- Whatever the pass is sent to, it comes to the same. -/
  anySink : ∀ {σ : Type} (sink : Sink Float σ) (receiver : σ),
    (walkThrough sheet sink receiver document).1 = (Pass.ofText sheet document).result ∧
      (walkThrough sheet sink receiver document).2.visits.toList =
        (Route.ofText sheet document).taken.map Station.visit ∧
      (walkThrough sheet sink receiver document).2.total = (Pass.ofText sheet document).tally

theorem walkThrough_eq_ofText (sheet : Sheet α) (sink : Sink α σ) (receiver : σ)
    (document : List Char) :
    (walkThrough sheet sink receiver document).1 = (Pass.ofText sheet document).result ∧
      (walkThrough sheet sink receiver document).2.visits.toList =
        (Route.ofText sheet document).taken.map Station.visit ∧
      (walkThrough sheet sink receiver document).2.total = (Pass.ofText sheet document).tally := by
  obtain ⟨hresult, hadvanced⟩ := walkThrough_follows sheet sink receiver document
  have htotal := total_walkThrough sheet sink receiver document
  refine ⟨?_, hadvanced.visits, htotal.trans (Pass.tally_ofText sheet document).symm⟩
  rw [hresult, htotal, Pass.result_ofText]

theorem visits_ofText (sheet : Sheet α) (document : List Char) :
    (Pass.ofText sheet document).walk.visits =
      (Route.ofText sheet document).taken.map Station.visit :=
  (walkThrough_eq_ofText sheet .recording #[] document).2.1

theorem byElement_ofText (sheet : Sheet α) (document : List Char) :
    (Pass.ofText sheet document).tally.byElement =
      ((Route.ofText sheet document).taken.foldl Station.count {}).byElement := by
  rw [Pass.tally_ofText]
  rfl

/-- The pen of a pass is counted by the commands that it was sent. -/
theorem countsOf_ofText (sheet : Sheet α) (document : List Char) :
    (Pass.ofText sheet document).tally.pen.CountsOf
      ((Route.ofText sheet document).requested sheet.flattener).length
      (Pass.ofText sheet document).commands := by
  rw [Pass.tally_ofText, Pass.commands_ofText]
  exact (Route.sound_ofMarkup sheet .bare (.scan document)).countsOf_counts

/-- As many lines of a pass are those of elements with a name as the pass has counted under it. -/
theorem countP_isElement_ofPass (sheet : Sheet Float) (document : List Char) (number : Nat)
    (name : String) :
    (TraceLine.ofPass number (Pass.ofText sheet document)).countP (·.isElement name) =
      (Pass.ofText sheet document).tally.byElement.count name := by
  have hfault : ((Pass.ofText sheet document).walk.fault.toList.map
      (TraceLine.ofFault number)).countP (·.isElement name) = 0 := by
    rw [List.countP_eq_zero, List.forall_mem_map]
    exact fun fault _ => Bool.false_ne_true
  have htally : [TraceLine.ofTally number (Pass.ofText sheet document).tally].countP
      (·.isElement name) = 0 := rfl
  have hvisits : (((Route.ofText sheet document).taken.map Station.visit).map
      (TraceLine.ofVisit number)).countP (·.isElement name) =
        (Route.ofText sheet document).taken.countP fun station => station.kind.name == name := by
    rw [List.countP_map, List.countP_map]
    exact List.countP_congr fun station _ => by
      simp [TraceLine.isElement_ofVisit, Station.visit]
  have hcount := Station.count_byElement_foldl (Route.ofText sheet document).taken
    Tally.balanced_empty.ordered name
  rw [TraceLine.ofPass, List.countP_append, List.countP_append, hfault, htally, visits_ofText,
    hvisits, byElement_ofText, hcount]
  exact (Nat.zero_add _).symm

theorem isReport_ofPass (sheet : Sheet Float) (document : List Char) (number : Nat) :
    IsReport sheet document number (TraceLine.ofPass number (Pass.ofText sheet document)) where
  pieces := by
    rw [TraceLine.ofPass, visits_ofText, Pass.result]
    cases (Pass.ofText sheet document).walk.fault with
    | none => rfl
    | some fault => rfl
  totals := by
    obtain ⟨-, hmoves, hdraws⟩ := countsOf_ofText sheet document
    rw [Tally.entries, hmoves, hdraws]
  numbered := by
    intro line hline
    rw [TraceLine.ofPass, List.mem_append, List.mem_append, List.mem_map, List.mem_map,
      List.mem_singleton] at hline
    rcases hline with (⟨visit, -, rfl⟩ | ⟨fault, -, rfl⟩) | rfl <;> rfl
  inOrder := (Route.visits_ofMarkup sheet .bare (.scan document)).1
  complete := by
    intro tally htally
    rw [Pass.result_ofText] at htally
    cases hstop : (Route.ofText sheet document).stop with
    | none => exact (Route.visits_ofMarkup sheet .bare (.scan document)).2 hstop
    | some stop =>
      rw [hstop] at htally
      cases htally
  counted := by
    intro name
    have hordered : (Pass.ofText sheet document).tally.byElement.Ordered := by
      rw [byElement_ofText]
      exact (Tally.balanced_empty.foldl_count _).ordered
    have hpositive : (Pass.ofText sheet document).tally.byElement.Positive := by
      rw [byElement_ofText]
      exact Station.positive_byElement_foldl _ Census.positive_nil
    rw [Tally.filter_entries, Census.filter_eq hordered hpositive, countP_isElement_ofPass]
    split <;> rfl
  anySink := fun sink receiver => walkThrough_eq_ofText sheet sink receiver document

/-! ## Sessions -/

/-- What a plotter can be asked for that does not run passes side by side. -/
inductive Job where
  | document (text : List Char)
  | source (text : List Char)
  /-- A source text in a file, if the file is there. -/
  | file (content : Option ByteArray)
  | commandFile {σ : Type} (device : Device σ) (state : σ) (text : List Char)
  | preview (options : PictureOptions) (text : List Char)

/-- The documents that passes are made over, in order: none for a file that cannot be read, and one
document twice for a preview, unless the first pass fails or there can be no picture. -/
def Job.documents (sheet : Sheet Float) : Job → List (List Char)
  | document text => [text]
  | source text => [Source.prepare text]
  | file content =>
    match content.bind String.fromUTF8? with
    | some text => [Source.prepare text.toList]
    | none => []
  | commandFile _ _ text => [text]
  | preview options text =>
    match (Pass.ofText sheet text).result, Picture.blank sheet.canvas options with
    | .ok _, .ok _ => [text, text]
    | _, _ => [text]

namespace Session

/-- Does what is asked for. The passes that were made are given. -/
def perform (session : Session) : Job → List (Pass Float) × Session
  | .document text =>
    let (pass, session) := session.interpret text
    ([pass], session)
  | .source text =>
    let (pass, session) := session.interpretSource text
    ([pass], session)
  | .file content =>
    match session.interpretFile content with
    | .ok (pass, session) => ([pass], session)
    | .error _ => ([], session)
  | .commandFile device state text =>
    let (_, pass, session) := session.commandFile device state text
    ([pass], session)
  | .preview options text =>
    let (_, passes, session) := session.render options text
    (passes, session)

/-- Does one thing after the other. -/
def performAll (session : Session) : List Job → List (Pass Float) × Session
  | [] => ([], session)
  | job :: jobs =>
    let (passes, session) := session.perform job
    let (later, session) := session.performAll jobs
    (passes ++ later, session)

/-- The session with passes reported. -/
def reported (session : Session) (passes : List (Pass Float)) : Session :=
  { session with trace := session.trace.map fun trace => passes.foldl Trace.report trace }

@[simp] theorem plotter_reported (session : Session) (passes : List (Pass Float)) :
    (session.reported passes).plotter = session.plotter := rfl

theorem reported_nil (session : Session) : session.reported [] = session := by
  simp [reported]

theorem reported_reported (session : Session) (first second : List (Pass Float)) :
    (session.reported first).reported second = session.reported (first ++ second) := by
  simp [reported, Function.comp_def]

/-- Every pass that is made is reported, and nothing else is. -/
theorem perform_eq (session : Session) (job : Job) :
    session.perform job =
      ((job.documents session.plotter.sheet).map (Pass.ofText session.plotter.sheet),
        session.reported
          ((job.documents session.plotter.sheet).map (Pass.ofText session.plotter.sheet))) := by
  cases job with
  | document text => rfl
  | source text => rfl
  | commandFile device state text => rfl
  | file content =>
    cases content with
    | none => exact Prod.ext rfl session.reported_nil.symm
    | some bytes =>
      simp only [perform, interpretFile, Job.documents, Option.bind_some]
      cases String.fromUTF8? bytes with
      | none => exact Prod.ext rfl session.reported_nil.symm
      | some text => rfl
  | preview options text =>
    simp only [perform, render, preview, interpret, Job.documents, Pass.result]
    cases (Pass.ofText session.plotter.sheet text).walk.fault with
    | some fault => rfl
    | none =>
      cases Picture.blank session.plotter.sheet.canvas options with
      | error flaw => rfl
      | ok picture =>
        exact Prod.ext rfl (session.reported_reported [_] [_])

theorem performAll_eq (session : Session) (jobs : List Job) :
    session.performAll jobs =
      ((jobs.flatMap (Job.documents session.plotter.sheet)).map (Pass.ofText session.plotter.sheet),
        session.reported ((jobs.flatMap (Job.documents session.plotter.sheet)).map
          (Pass.ofText session.plotter.sheet))) := by
  induction jobs generalizing session with
  | nil => exact Prod.ext rfl session.reported_nil.symm
  | cons job jobs ih =>
    simp only [performAll, perform_eq, ih, plotter_reported, reported_reported]
    rw [List.flatMap_cons, List.map_append]

end Session

theorem Trace.foldl_report (trace : Trace) (passes : List (Pass Float)) :
    passes.foldl report trace =
      ⟨trace.passes + passes.length, trace.lines ++
        ((passes.zipIdx trace.passes).map fun (pass, number) => TraceLine.ofPass number pass).flatten⟩ := by
  induction passes generalizing trace with
  | nil => simp
  | cons pass passes ih =>
    rw [List.foldl_cons, ih]
    simp [report]
    omega

/-- Whatever a plotter with a trace is asked for, its trace holds the reports of the passes that are made,
one behind the other and numbered from zero. -/
theorem Session.trace_performAll {plotter : Plotter} {path : String}
    (h : plotter.tracePath = some path) (jobs : List Job) :
    let documents := jobs.flatMap (Job.documents plotter.sheet)
    let (passes, session) := (start plotter).performAll jobs
    passes = documents.map (Pass.ofText plotter.sheet) ∧
      ∃ reports : List (List TraceLine), session.trace = some ⟨documents.length, reports.flatten⟩ ∧
        List.Forall₂ (fun (document, number) lines => IsReport plotter.sheet document number lines)
          documents.zipIdx reports := by
  intro documents
  have htrace : (start plotter).trace = some {} := by rw [start, h, Option.map_some]
  rw [performAll_eq]
  refine ⟨rfl, documents.zipIdx.map fun (document, number) =>
    TraceLine.ofPass number (Pass.ofText plotter.sheet document), ?_, ?_⟩
  · show Option.map _ (start plotter).trace = _
    rw [htrace, Option.map_some, Trace.foldl_report, List.zipIdx_map, List.map_map, List.length_map,
      Nat.zero_add, List.nil_append]
    rfl
  · rw [List.forall₂_map_right_iff, List.forall₂_same]
    exact fun numbered _ => isReport_ofPass plotter.sheet numbered.1 numbered.2

/-- The file is not there and takes no pass, the picture of the preview is refused after its first, and
the last pass fails at its third element. -/
theorem Session.trace_performAll_refused :
    let plotter : Plotter := ⟨⟨⟨10, 10⟩, ⟨2, false⟩⟩, some "trace"⟩
    let drawn := "<svg><g> <rect/></g></svg>".toList
    let failing := "<svg><line/><polyline points='1'/><line/></svg>".toList
    let jobs : List Job := [.commandFile (Device.limited (some 0) none) 0 drawn, .file none,
      .preview { PictureOptions.standard with scale := 0 } drawn, .document failing]
    let element (number depth : Nat) (name attributes : String) : TraceLine :=
      ⟨"svgpen.element", number, [("depth", .number depth), ("element", .text name.toList),
        ("attributes", .text attributes.toList)]⟩
    let summary (number containers shapes strokes : Nat) (named : List (String × Nat)) : TraceLine :=
      ⟨"svgpen.summary", number, [("counts", .counts
        ([("containers", containers), ("shapes", shapes), ("orphaned_shapes", 0), ("unrecognized", 0),
          ("moves", strokes), ("draws", strokes), ("suppressed", 0)] ++
            named.map fun (name, n) => ("element." ++ name, n)))]⟩
    let (passes, session) := (start plotter).performAll jobs
    passes.length = 3 ∧
      session.trace.map Trace.lines = some
        ([element 0 0 "svg" "", element 0 1 "g" "", element 0 2 "rect" "",
          summary 0 2 1 0 [("g", 1), ("rect", 1), ("svg", 1)]] ++
        [element 1 0 "svg" "", element 1 1 "g" "", element 1 2 "rect" "",
          summary 1 2 1 0 [("g", 1), ("rect", 1), ("svg", 1)]] ++
        [element 2 0 "svg" "", element 2 1 "line" "", element 2 1 "polyline" "points='1'",
          ⟨"svgpen.error", 2, [("message",
            .text "malformed value for `points` on <polyline>: odd coordinate count 1".toList)]⟩,
          summary 2 1 2 1 [("line", 1), ("polyline", 1), ("svg", 1)]]) ∧
      ∃ reports : List (List TraceLine), session.trace = some ⟨3, reports.flatten⟩ ∧
        List.Forall₂ (fun (document, number) lines => IsReport plotter.sheet document number lines)
          [(drawn, 0), (drawn, 1), (failing, 2)] reports := by
  intro plotter drawn failing jobs
  have hdocuments : jobs.flatMap (Job.documents plotter.sheet) = [drawn, drawn, failing] := by
    decide +kernel
  obtain ⟨hpasses, reports, htrace, hreports⟩ :=
    trace_performAll (show plotter.tracePath = some "trace" from rfl) jobs
  rw [hdocuments] at hpasses htrace hreports
  refine ⟨?_, ?_, reports, htrace, hreports⟩
  · rw [hpasses]
    rfl
  · decide +kernel

end PenPlot
