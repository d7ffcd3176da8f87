import Excerpt.Proofs.Region.Openings
import Excerpt.Proofs.Sample.Selection
import Excerpt.Proofs.Selector.RoundTrip
import Excerpt.Request

/-!
# Asking for a region by its name

A name is put behind the first hash of a slug and is read there as a selector. It comes out as the
name of a region just if it is trimmed, has no comma and names no numbers. Nothing else in it counts,
so that it may hold blanks, hyphens and further hashes. Such a request shows the content lines of the
region that carry no skip tag, and it fails if there are none.
-/

namespace Excerpt

variable {content name path : String} {line : Line}

/-! ## From the slug to the sample -/

theorem selectorItems_eq_region_iff :
    selectorItems name = [Item.region name] ↔ Item.IsName name.toList := by
  constructor
  · intro h
    have hmem : Item.region name ∈ selectorItems name := h ▸ List.mem_singleton_self _
    cases Item.parsed_of_mem hmem with
    | region hname => exact hname
  · intro hname
    exact selectorItems_text (.region hname) fun start => nofun

/-- The first hash of a slug ends the path, and the selector holds those that follow. -/
theorem Request.ofSlug_hash (attributes : Attributes) (hpath : '#' ∉ path.toList)
    (hname : name.toList ≠ []) :
    Request.ofSlug (path ++ "#" ++ name) attributes = ⟨path, some name, attributes⟩ := by
  have hchars : ∀ c ∈ path.toList, (c != '#') = true :=
    fun c hc => bne_iff_ne.2 fun heq => hpath (heq ▸ hc)
  have htext : (path ++ "#" ++ name).toList = path.toList ++ '#' :: name.toList := by simp
  have hfile : (path.toList ++ '#' :: name.toList).takeWhile (· != '#') = path.toList := by
    rw [List.takeWhile_append_of_pos hchars, List.takeWhile_cons_of_neg (by decide),
      List.append_nil]
  have hrest : (path.toList ++ '#' :: name.toList).dropWhile (· != '#') = '#' :: name.toList := by
    rw [List.dropWhile_append_of_pos hchars, List.dropWhile_cons_of_neg (by decide)]
  obtain ⟨c, t, hct⟩ := List.exists_cons_of_ne_nil hname
  have hselector : Request.selector? ('#' :: name.toList) = some name := by
    rw [hct, Request.selector?, ← hct, String.ofList_toList]
  rw [Request.ofSlug, htext, hfile, hrest, hselector, String.ofList_toList]

theorem Sample.ofSelector_region (source : Source) (hname : Item.IsName name.toList) :
    Sample.ofSelector source (some name) =
      ⟨withoutSkipped (source.region name), source.lineCount⟩ := by
  have hselected : Sample.selected source [Item.region name] = source.region name := by
    rw [selected_eq_flatMap source (List.cons_ne_nil _ _), List.flatMap_singleton]
    rfl
  rw [Sample.ofSelector, Option.map_some, Option.getD_some, selectorItems_eq_region_iff.2 hname,
    Sample.ofItems, hselected]
  rfl

/-- A request fails only for want of lines, and then names what was asked for. -/
theorem Request.render_eq (request : Request) (source : Source) (defaults : Defaults) :
    request.render source defaults =
      if (Sample.ofSelector source request.selector).lines = [] then
        .error (.empty request.file request.selector)
      else .ok ⟨(Sample.ofSelector source request.selector).render
        (RenderOptions.resolve defaults request.attributes), request.contentType?⟩ := by
  rw [Request.render, Request.sample, Sample.require, Sample.isEmpty]
  by_cases h : (Sample.ofSelector source request.selector).lines = []
  · rw [if_pos h, if_pos (List.isEmpty_iff.2 h)]
    rfl
  · rw [if_neg h, if_neg (mt List.isEmpty_iff.1 h)]
    rfl

/-! ## The lines of a region -/

theorem Source.mem_region_iff : line ∈ (Source.ofContent content).region name ↔
    ∃ offset, (Source.ofContent content).lines[offset]? = some line ∧ line.isDelimiter = false ∧
      ∃ o, OpenAt (Source.classified content) offset o ∧ o.name = name := by
  simp only [Source.region_ofContent, List.mem_map, Source.coveredLines, mem_covered,
    mem_openedAfter_iff, Source.getElem?_lines, Option.map_eq_some_iff]
  constructor
  · rintro ⟨⟨text, offset⟩, ⟨k, hk, hoffset, ho⟩, rfl⟩
    obtain rfl : offset = k := hoffset.trans (Nat.zero_add k)
    exact ⟨offset, ⟨_, hk, rfl⟩, rfl, ho⟩
  · rintro ⟨offset, ⟨⟨text, d⟩, hk, rfl⟩, hcontent, ho⟩
    have hnone : d = none := by
      simpa [Line.isDelimiter, LineKind.isDelimiter_ofDelimiter] using hcontent
    subst hnone
    exact ⟨(text, offset), ⟨offset, hk, (Nat.zero_add offset).symm, ho⟩, rfl⟩

/-- A name is read as that of a region just if it is trimmed, not empty, and has no comma and no
numbers. A slug with such a name behind a path asks for the content lines at which a region of that
name is open, those with a skip tag left out. If there is none, the request fails with the path and
the name. -/
theorem region_requested (content path name : String) (attributes : Attributes)
    (defaults : Defaults) (hpath : '#' ∉ path.toList) :
    let source := Source.ofContent content
    let request := Request.ofSlug (path ++ "#" ++ name) attributes
    let lines := withoutSkipped (source.region name)
    (selectorItems name = [Item.region name] ↔ Item.IsName name.toList) ∧
    (∀ line, line ∈ lines ↔ hasSkipTag line.text = false ∧
      ∃ offset, source.lines[offset]? = some line ∧ line.isDelimiter = false ∧
        ∃ o, OpenAt (Source.classified content) offset o ∧ o.name = name) ∧
    (Item.IsName name.toList →
      (lines ≠ [] → request.render source defaults =
        .ok ⟨Sample.render ⟨lines, source.lineCount⟩ (RenderOptions.resolve defaults attributes),
          request.contentType?⟩) ∧
      (lines = [] → request.render source defaults =
        .error ⟨.emptySample, path, some name⟩)) := by
  intro source request lines
  refine ⟨selectorItems_eq_region_iff, fun line => ?_, fun hname => ?_⟩
  · rw [mem_withoutSkipped, Source.mem_region_iff, and_comm]
  · have hrequest : request = ⟨path, some name, attributes⟩ :=
      Request.ofSlug_hash attributes hpath hname.ne_nil
    have hsample : Sample.ofSelector source request.selector = ⟨lines, source.lineCount⟩ := by
      rw [hrequest]
      exact Sample.ofSelector_region source hname
    rw [Request.render_eq, hsample]
    refine ⟨fun hne => ?_, fun hnil => ?_⟩
    · rw [if_neg hne, hrequest]
    · rw [if_pos hnil, hrequest]
      rfl

/-- A name with blanks, a hyphen and a hash, in a file with such a region and in one without. -/
theorem region_requested_of_hash :
    let path := "src/a.js"
    let name := "a - b#1"
    let source := Source.ofContent "// sample(a - b#1)\nx // skip-sample\ny\n// end-sample\nz\n"
    let request := Request.ofSlug (path ++ "#" ++ name) {}
    '#' ∉ path.toList ∧ Item.IsName name.toList ∧
      withoutSkipped (source.region name) = [.content 3 "y"] ∧
      request.render source {} = .ok ⟨[.plain "y"], some "js"⟩ ∧
      withoutSkipped ((Source.ofContent "x\n").region name) = [] ∧
      request.render (Source.ofContent "x\n") {} = .error ⟨.emptySample, path, some name⟩ := by
  intro path name source request
  have hpath : '#' ∉ path.toList := by decide
  have hname : Item.IsName name.toList :=
    ⟨by decide, by decide, by decide, Item.numbers?_eq_none_iff.1 (by decide)⟩
  have hlines : withoutSkipped (source.region name) = [.content 3 "y"] := by decide
  have hnone : withoutSkipped ((Source.ofContent "x\n").region name) = [] := by decide
  obtain ⟨-, -, hpresent⟩ := region_requested
    "// sample(a - b#1)\nx // skip-sample\ny\n// end-sample\nz\n" path name {} {} hpath
  obtain ⟨-, -, habsent⟩ := region_requested "x\n" path name {} {} hpath
  have hshown := (hpresent hname).1 (hlines ▸ List.cons_ne_nil _ _)
  refine ⟨hpath, hname, hlines, hshown.trans ?_, hnone, (habsent hname).2 hnone⟩
  decide

end Excerpt
