import Excerpt.CommandLine.Report
import Excerpt.Proofs.CommandLine.Arguments
import Excerpt.Proofs.Service.Batch

/-!
# Elements do not disturb each other

The elements of an invocation share one service, and yet each is reported as if its slug were the
only one. Its part of the output stands in the place of its slug. Only a failed retrieval is told
in other words to those who waited for it than to the one that made the call.
-/

namespace Excerpt.CommandLine

namespace Element

/-- What an element adds to the output, given whether there are others and its place. -/
def block (format : OutputFormat) (others : Bool) (n : Nat) (element : Element) : String :=
  (if others then (if n = 0 then "" else "\n") ++ ("==> " ++ element.slug ++ " <==\n") else "") ++
    match element.result with
    | .ok sample => sample.write format ++ "\n"
    | .error _ => ""

/-- What a failed element adds to the errors. -/
def complaint? (element : Element) : Option String :=
  match element.result with
  | .ok _ => none
  | .error failure => some ("Error in '" ++ element.slug ++ "': " ++ failure.message ++ "\n")

theorem block_of_others (format : OutputFormat) (n : Nat) (element : Element) :
    element.block format true n = (if n = 0 then "" else "\n") ++ element.part format := by
  obtain ⟨slug, result⟩ := element
  cases result <;> simp [block, part, heading, output, String.append_assoc]

theorem block_alone (format : OutputFormat) (n : Nat) (element : Element) :
    element.block format false n = element.output format := by
  obtain ⟨slug, result⟩ := element
  cases result <;> simp [block, output]

theorem failed_eq_false_iff (element : Element) :
    element.failed = false ↔ ∃ sample, element.result = .ok sample := by
  unfold failed
  cases element.result <;> simp

end Element

namespace Report

theorem intercalate_parts (format : OutputFormat) (element : Element) (elements : List Element) :
    String.intercalate "\n" ((element :: elements).map fun element => element.part format) =
      element.part format ++
        String.join (elements.map fun element => "\n" ++ element.part format) := by
  induction elements generalizing element with
  | nil => simp
  | cons next elements ih =>
    have hnext := ih next
    rw [List.map_cons] at hnext
    rw [List.map_cons, List.map_cons, String.intercalate_cons_cons, hnext, List.map_cons,
      String.join_cons]
    simp only [String.append_assoc]

/-- Every block but the first begins with a blank line. -/
theorem later_blocks (format : OutputFormat) (elements : List Element) (n : Nat) :
    ((elements.zipIdx (n + 1)).map fun p => p.1.block format true p.2) =
      elements.map fun element => "\n" ++ element.part format := by
  induction elements generalizing n with
  | nil => rfl
  | cons element elements ih =>
    rw [List.zipIdx_cons, List.map_cons, List.map_cons, ih, Element.block_of_others,
      if_neg (Nat.succ_ne_zero n)]

/-- The output is made of the blocks of the elements, one after the other. -/
theorem outputOf_eq_join (format : OutputFormat) (elements : List Element) :
    outputOf format elements = String.join (elements.zipIdx.map fun p =>
      p.1.block format (decide (1 < elements.length)) p.2) := by
  cases elements with
  | nil => rfl
  | cons first elements =>
    cases elements with
    | nil => simp [outputOf, Element.block_alone]
    | cons second elements =>
      have hothers : decide (1 < (first :: second :: elements).length) = true := by simp
      rw [hothers, List.zipIdx_cons, List.map_cons, later_blocks, String.join_cons,
        Element.block_of_others, if_pos rfl, String.empty_append, ← intercalate_parts]
      rfl

theorem errors_eq_join (elements : List Element) :
    String.join (elements.map Element.errors) =
      String.join (elements.filterMap Element.complaint?) := by
  induction elements with
  | nil => rfl
  | cons element elements ih =>
    rw [List.map_cons, String.join_cons, ih, List.filterMap_cons]
    unfold Element.errors Element.complaint?
    cases element.result <;> simp

theorem ofElements_singleton (format : OutputFormat) (element : Element) :
    ofElements format [element] =
      ⟨element.block format false 0, element.complaint?.getD "", element.failed⟩ := by
  have herrors : String.join [element.errors] = element.complaint?.getD "" := by
    rw [← List.map_singleton, errors_eq_join]
    cases hc : element.complaint? <;> simp [hc]
  rw [ofElements, List.map_singleton, herrors, Element.block_alone, List.any_cons, List.any_nil,
    Bool.or_false]
  rfl

end Report

namespace Invocation

variable {invocation : Invocation} {directory : Directory} {defaults : Defaults} {slug : String}
  {n : Nat}

/-- The invocation with the same options and one slug. -/
def alone (invocation : Invocation) (slug : String) : Invocation :=
  { invocation with slugs := [slug] }

/-- What a request comes to when nobody else asks for its file. -/
def resultAlone (directory : Directory) (defaults : Defaults) (request : Request) :
    Except SampleFailure RenderedSample :=
  match (directory.read (request.identifier defaults)).scan (request.identifier defaults) with
  | .ok source => request.render source defaults
  | .error failure => .error (.retrieval request.file request.selector failure)

/-- The one result is the other, or both say that there is no file, and the one in the words for
those who waited for it. -/
def AsAlone (defaults : Defaults) (request : Request)
    (result alone : Except SampleFailure RenderedSample) : Prop :=
  result = alone ∨ ∃ failure,
    alone = .error (.retrieval request.file request.selector failure) ∧
    result = .error (.retrieval request.file request.selector
      (.abandoned (request.identifier defaults)))

theorem alone_eq_display (directory : Directory) (defaults : Defaults) (request : Request) :
    (Job.render request defaults).alone ((directory.read (request.identifier defaults)).scan
        (request.identifier defaults)) = .display (resultAlone directory defaults request) := by
  unfold resultAlone
  cases (directory.read (request.identifier defaults)).scan (request.identifier defaults) <;> rfl

theorem resultAlone_of_erred {request : Request}
    (h : (directory.read (request.identifier defaults)).fate = .erred) :
    ∃ failure, resultAlone directory defaults request =
      .error (.retrieval request.file request.selector failure) := by
  unfold resultAlone
  cases hr : directory.read (request.identifier defaults) with
  | content text =>
    rw [hr] at h
    cases h
  | missing => exact ⟨_, rfl⟩
  | unreadable reason => exact ⟨_, rfl⟩

/-- Among others a request comes to what it comes to alone. -/
theorem asAlone_batch (directory : Directory) {jobs : List Job} {request : Request}
    (hjob : jobs[n]? = some (.render request defaults)) :
    ∃ outcome, (Service.run (.ofDirectory directory) [.start jobs]).outcome? n = some outcome ∧
      AsAlone defaults request (request.answer defaults outcome)
        (resultAlone directory defaults request) := by
  obtain ⟨outcome, ho, hreply⟩ := Service.reply_batch directory.read jobs hjob
  refine ⟨outcome, ho, ?_⟩
  rcases hreply with hreply | ⟨herred, rfl⟩
  · have hdisplay := hreply.trans (alone_eq_display directory defaults request)
    exact Or.inl (Reply.display.inj hdisplay)
  · obtain ⟨failure, hf⟩ := resultAlone_of_erred herred
    exact Or.inr ⟨failure, hf, rfl⟩

theorem map_slug_elements (invocation : Invocation) (directory : Directory)
    (defaults : Defaults) :
    (invocation.elements directory defaults).map Element.slug = invocation.slugs := by
  have hslugs : (invocation.elements directory defaults).map Element.slug =
      ((invocation.slugs.zip invocation.requests).zipIdx.map Prod.fst).map Prod.fst := by
    simp only [elements, List.map_map]
    rfl
  rw [hslugs, List.zipIdx_map_fst, List.map_fst_zip (by simp [requests])]

theorem asAlone_of_mem {element : Element}
    (h : element ∈ invocation.elements directory defaults) :
    AsAlone defaults (Request.ofSlug element.slug invocation.attributes) element.result
      (resultAlone directory defaults (Request.ofSlug element.slug invocation.attributes)) := by
  obtain ⟨⟨⟨slug, request⟩, n⟩, hm, rfl⟩ := List.mem_map.1 h
  obtain ⟨hslug, hrequest⟩ := List.getElem?_zip_eq_some.1 (List.mk_mem_zipIdx_iff_getElem?.1 hm)
  have hof : request = Request.ofSlug slug invocation.attributes := by
    rw [requests, List.getElem?_map, hslug] at hrequest
    exact (Option.some.inj hrequest).symm
  have hjob : (invocation.requests.map fun request => Job.render request defaults)[n]? =
      some (.render request defaults) := by
    rw [List.getElem?_map, hrequest]
    rfl
  obtain ⟨outcome, ho, halone⟩ := asAlone_batch directory hjob
  rw [← hof]
  simp only [ho, Option.getD_some]
  exact halone

theorem elements_alone (invocation : Invocation) (slug : String) (directory : Directory)
    (defaults : Defaults) : (invocation.alone slug).elements directory defaults =
      [⟨slug, resultAlone directory defaults (Request.ofSlug slug invocation.attributes)⟩] := by
  let request := Request.ofSlug slug invocation.attributes
  have hreply : ((Service.run (.ofDirectory directory) [.start [.render request defaults]]).outcome?
      0).map (Job.render request defaults).reply =
        some (.display (resultAlone directory defaults request)) := by
    rw [Service.reply_run_alone (.ofDirectory directory) (.render request defaults) rfl]
    exact congrArg some (alone_eq_display directory defaults request)
  obtain ⟨outcome, ho, hdisplay⟩ := Option.map_eq_some_iff.1 hreply
  have hanswer : request.answer defaults outcome = resultAlone directory defaults request :=
    Reply.display.inj hdisplay
  have helements : (invocation.alone slug).elements directory defaults =
      [⟨slug, request.answer defaults (((Service.run (.ofDirectory directory)
        [.start [.render request defaults]]).outcome? 0).getD
          (.failed (.abandoned (request.identifier defaults))))⟩] := rfl
  rw [helements, ho, Option.getD_some, hanswer]

/-- The report of the run in which a slug is the only one. -/
theorem report_alone {readers : Readers} {arguments : List String} {c : Configuration}
    (hread : readers.arguments arguments = .ok (invocation.alone slug))
    (hload : Configuration.load readers.tables directory invocation.sources = .ok c) :
    CommandLine.report readers directory arguments = .ok (Report.ofElements c.format
      [⟨slug, resultAlone directory c.defaults (Request.ofSlug slug invocation.attributes)⟩]) := by
  have hload' : Configuration.load readers.tables directory (invocation.alone slug).sources =
      .ok c := hload
  rw [← elements_alone]
  simp only [CommandLine.report, hread, hload']
  rfl

theorem AsAlone.block_eq {request : Request} {result alone : Except SampleFailure RenderedSample}
    (h : AsAlone defaults request result alone) (format : OutputFormat) (slug : String)
    (others : Bool) (n : Nat) : (⟨slug, result⟩ : Element).block format others n =
      (⟨slug, alone⟩ : Element).block format others n := by
  rcases h with rfl | ⟨failure, rfl, rfl⟩
  · rfl
  · rfl

theorem AsAlone.ok_iff {request : Request} {result alone : Except SampleFailure RenderedSample}
    (h : AsAlone defaults request result alone) :
    (∃ sample, result = .ok sample) ↔ ∃ sample, alone = .ok sample := by
  rcases h with rfl | ⟨failure, rfl, rfl⟩
  · rfl
  · simp

end Invocation

/-- The report of an invocation is made of what its slugs come to, in their order: a block of
output for each and a complaint for each that failed, and it is a success if none failed. Every
slug comes to what the file that it names comes to, as if nobody else asked for it, and that is
reported in the run with the same options in which the slug is the only one. There is such a run.
A failed retrieval alone may be reported in other words. -/
theorem report_elements (readers : Readers) (hlawful : readers.arguments.Lawful)
    (directory : Directory) (arguments : List String) (invocation : Invocation)
    (c : Configuration) (hread : readers.arguments arguments = .ok invocation)
    (hload : Configuration.load readers.tables directory invocation.sources = .ok c) :
    let elements := invocation.elements directory c.defaults
    elements ≠ [] ∧ elements.map Element.slug = invocation.slugs ∧
    (∃ r, report readers directory arguments = .ok r ∧
      r.output = String.join (elements.zipIdx.map fun p =>
        p.1.block c.format (decide (1 < elements.length)) p.2) ∧
      r.errors = String.join (elements.filterMap Element.complaint?) ∧
      (r.failed = false ↔ ∀ element ∈ elements, ∃ sample, element.result = .ok sample)) ∧
    ∀ element ∈ elements,
      let request := Request.ofSlug element.slug invocation.attributes
      let result := Invocation.resultAlone directory c.defaults request
      let alone := invocation.alone element.slug
      Invocation.AsAlone c.defaults request element.result result ∧
      readers.arguments alone.arguments = .ok alone ∧
      ∀ arguments', readers.arguments arguments' = .ok alone →
        ∃ r, report readers directory arguments' = .ok r ∧
          r.output = element.block c.format false 0 ∧
          r.errors = ((⟨element.slug, result⟩ : Element).complaint?).getD "" ∧
          (r.failed = false ↔ ∃ sample, element.result = .ok sample) := by
  intro elements
  have hmap : elements.map Element.slug = invocation.slugs :=
    Invocation.map_slug_elements invocation directory c.defaults
  refine ⟨?_, hmap, ⟨invocation.report directory c, ?_, ?_, ?_, ?_⟩, fun element hmem => ?_⟩
  · intro hnil
    rw [hnil] at hmap
    exact hlawful.exists_slug hread hmap.symm
  · simp only [report, hread, hload]
  · exact Report.outputOf_eq_join c.format elements
  · exact Report.errors_eq_join elements
  · change elements.any Element.failed = false ↔ _
    simp only [List.any_eq_false, Bool.not_eq_true, Element.failed_eq_false_iff]
  · intro request result alone
    have has : Invocation.AsAlone c.defaults request element.result result :=
      Invocation.asAlone_of_mem hmem
    have hwritten : readers.arguments alone.arguments = .ok alone :=
      hlawful.read_arguments hread (List.cons_ne_nil element.slug [])
    refine ⟨has, hwritten, fun arguments' hread' => ?_⟩
    have hreport := Invocation.report_alone hread' hload
    rw [Report.ofElements_singleton] at hreport
    refine ⟨_, hreport, (has.block_eq c.format element.slug false 0).symm, rfl, ?_⟩
    rw [Element.failed_eq_false_iff, has.ok_iff]

/-- One file is there, and another one is not and is asked for twice. -/
theorem report_elements_of_missing :
    let directory : Directory := fun path =>
      if path = "a.js" then .file "x\n".toUTF8 else .missing
    let arguments := ["a.js", "b.js", "b.js#main"]
    let invocation : Invocation := ⟨[], arguments⟩
    ∃ c, Configuration.load Toml.table? directory [.optional "sampler.toml"] = .ok c ∧
      let elements := invocation.elements directory c.defaults
      elements.map Element.slug = arguments ∧
      (∃ r, report .program directory arguments = .ok r ∧
        r.errors = String.join (elements.filterMap Element.complaint?)) ∧
      ∀ element ∈ elements,
        let request := Request.ofSlug element.slug invocation.attributes
        Invocation.AsAlone c.defaults request element.result
          (Invocation.resultAlone directory c.defaults request) ∧
        Invocation.ofArguments ["--", element.slug] = .ok ⟨[], [element.slug]⟩ ∧
        ∃ r, report .program directory ["--", element.slug] = .ok r ∧
          r.output = element.block c.format false 0 := by
  intro directory arguments invocation
  refine ⟨_, rfl, ?_⟩
  obtain ⟨-, hslugs, ⟨r, hreport, -, herrors, -⟩, halone⟩ :=
    report_elements .program Invocation.lawful_ofArguments directory arguments invocation _ rfl rfl
  refine ⟨hslugs, ⟨r, hreport, herrors⟩, fun element hmem => ?_⟩
  obtain ⟨has, hread, hrun⟩ := halone element hmem
  obtain ⟨r', hreport', houtput, -⟩ := hrun ["--", element.slug] hread
  exact ⟨has, hread, r', hreport', houtput⟩

end Excerpt.CommandLine
