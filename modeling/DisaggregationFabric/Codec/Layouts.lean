import DisaggregationFabric.Codec.Messages
import DisaggregationFabric.Lib.Layout

/-!
# The layouts of the records

How the bytes of each record are divided, for `persistence.cpp` and `codec.hpp` alike: words of
eight, four and one bytes, strings behind their length, tables behind their count. A layout is
one list, in the order of the statements of the reader, and `formatted_*` says that the reader
reads what the layout says.

The records that the durable file holds tables of have the layout of their identity as a
parameter, `id`: the reader takes any eight bytes, a well-formed file has none that are all
zero.
-/

namespace DFabric

open Wire

/-! ### Statements -/

section Statements

variable {R D : Type} [DoubleBits D]

@[simp] theorem formatted_u64 (set : UInt64 → R → R) : Formatted (Fill.u64 set) (.bytes 8) :=
  .read set .u64

@[simp] theorem formatted_u32 (set : UInt32 → R → R) : Formatted (Fill.u32 set) (.bytes 4) :=
  .read set .u32

@[simp] theorem formatted_flag (set : Bool → R → R) : Formatted (Fill.flag set) (.bytes 1) :=
  .read set .flag

@[simp] theorem formatted_str (lim : Limits) (set : Str → R → R) :
    Formatted (Fill.str lim set) (.str lim.maxLen) := .read set (.str lim)

theorem formattedRead_dbl : FormattedRead (Fill.readDbl : Reader → D × Reader) (.bytes 8) :=
  FormattedRead.u64.map DoubleBits.ofBits

@[simp] theorem formatted_dbl (set : D → R → R) : Formatted (Fill.dbl set) (.bytes 8) :=
  .read set formattedRead_dbl

@[simp] theorem formatted_enum {E : Type} [EnumTraits E] [Inhabited E] (set : E → R → R) :
    Formatted (Fill.enum set) (.bytes 4) := .check Fill.validEnum? set .u32

@[simp] theorem formatted_into {A : Type} (get : R → A) (set : A → R → R) {d : Decoder A}
    {l : Layout} (h : Formatted d l) : Formatted (.into get set d) l := .into get set h

@[simp] theorem formatted_list {A : Type} [Inhabited A] (lim : Limits) (get : R → List A)
    (set : List A → R → R) {d : Decoder A} {l : Layout} (h : Formatted d l) :
    Formatted (Fill.list lim get set d) (.table lim.maxCount l) := .collect _ get set _ h

@[simp] theorem formatted_ids {T : Tag} (lim : Limits) (get : R → List (StrongId T))
    (set : List (StrongId T) → R → R) :
    Formatted (Fill.ids lim get set) (.table lim.maxCount (.bytes 8)) :=
  formatted_list lim get set (.value (FormattedRead.u64.map StrongId.mk))

@[simp] theorem formatted_generations {T : Tag} (lim : Limits) (get : R → List (StrongGeneration T))
    (set : List (StrongGeneration T) → R → R) :
    Formatted (Fill.generations lim get set) (.table lim.maxCount (.bytes 8)) :=
  formatted_list lim get set (.value (FormattedRead.u64.map StrongGeneration.mk))

@[simp] theorem formatted_numbers [Inhabited D] (lim : Limits) (get : R → OrdMap Str D)
    (set : OrdMap Str D → R → R) :
    Formatted (Fill.numbers lim get set)
      (.table lim.maxCount (.seq (.str lim.maxLen) (.bytes 8))) :=
  .collect _ get set _ (.value ((FormattedRead.str lim).pair formattedRead_dbl))

@[simp] theorem formatted_classes (lim : Limits) (get : R → OrdSet ResourceClass)
    (set : OrdSet ResourceClass → R → R) :
    Formatted (Fill.classes lim get set) (.table lim.maxCount (.bytes 4)) :=
  .collect _ get set _ (formatted_enum _)

@[simp] theorem formatted_strings (lim : Limits) :
    Formatted (.value (Reader.str lim)) (.str lim.maxLen) := .value (.str lim)

@[simp] theorem formatted_numbersOnly :
    Formatted (.value Fill.readDbl : Decoder D) (.bytes 8) := .value formattedRead_dbl

end Statements

/-! ### Layouts -/

section Layouts

variable (lim : Limits)

/-- A table of words. -/
def wordsLayout : Layout := .table lim.maxCount (.bytes 8)

/-- A table of names and numbers. -/
def numbersLayout : Layout := .table lim.maxCount (.seq (.str lim.maxLen) (.bytes 8))

/-- An evidence record. -/
def evidenceLayout : List Layout := [
  .bytes 8, .bytes 8, .bytes 4, .bytes 4, .bytes 8, .bytes 8, .bytes 8,
  .str lim.maxLen, .str lim.maxLen, .bytes 1]

/-- A capability claim. -/
def capabilityLayout : List Layout := [
  .bytes 4, .bytes 4, .bytes 8, .bytes 8, .str lim.maxLen]

/-- A compatibility pin. -/
def pinLayout : List Layout := [.str lim.maxLen, .str lim.maxLen, .bytes 8]

/-- A compatibility claim. -/
def compatibilityLayout : List Layout := [
  .bytes 8, .bytes 8, .table lim.maxCount (.all (pinLayout lim))]

/-- The capacity of a resource. -/
def capacityLayout : List Layout := [
  .bytes 8, .bytes 8, .bytes 8, .bytes 8, .bytes 8, .bytes 8, .bytes 8, numbersLayout lim]

/-- A locality. -/
def localityLayout : List Layout := [wordsLayout lim, numbersLayout lim]

/-- A failure domain. -/
def failureDomainLayout : List Layout := [.bytes 8, .bytes 4, .str lim.maxLen, .bytes 1]

/-- A resource. -/
def resourceLayout (id : Layout) : List Layout := [
  id, .bytes 8, .bytes 4, .bytes 8, .str lim.maxLen, .str lim.maxLen, .bytes 1,
  .bytes 4, .bytes 4, .bytes 4,
  .all (capacityLayout lim), .all (localityLayout lim), .all (failureDomainLayout lim),
  .all (evidenceLayout lim),
  .table lim.maxCount (.all (capabilityLayout lim)),
  .table lim.maxCount (.all (compatibilityLayout lim))]

/-- A node. -/
def nodeLayout (id : Layout) : List Layout := [
  id, .bytes 8, .str lim.maxLen, .str lim.maxLen, .bytes 4, wordsLayout lim,
  .all (failureDomainLayout lim), .all (localityLayout lim), .bytes 4, .bytes 4,
  .str lim.maxLen, .bytes 8, .bytes 8, .bytes 4, .bytes 1]

/-- A path. -/
def pathLayout : List Layout := [
  .bytes 8, .bytes 8, .bytes 8, .bytes 8, .bytes 8, .bytes 8, .bytes 1, .bytes 1, .str lim.maxLen,
  .bytes 1, .bytes 8, .bytes 8, .bytes 1, .str lim.maxLen, .str lim.maxLen,
  .all (evidenceLayout lim)]

/-- An edge. -/
def edgeLayout : List Layout := [
  .bytes 8, .bytes 8, .bytes 4, .bytes 1, .bytes 8, .bytes 8, .str lim.maxLen, .str lim.maxLen]

/-- A graph. -/
def graphLayout : List Layout := [wordsLayout lim, .table lim.maxCount (.all (edgeLayout lim))]

/-- An authority tuple. -/
def authorityLayout : List Layout := [
  .bytes 8, wordsLayout lim, wordsLayout lim, wordsLayout lim, wordsLayout lim, wordsLayout lim,
  wordsLayout lim, .bytes 8, wordsLayout lim, wordsLayout lim, .bytes 8]

/-- A request; `codec.hpp` has one flag more than `persistence.cpp`. -/
def requestLayout (flags : ℕ) : List Layout := [
  .bytes 8, .bytes 4, .table lim.maxCount (.str lim.maxLen), .bytes 8, .bytes 8, .bytes 8, .bytes 8,
  .bytes 4, .bytes 8, .bytes 8, .table lim.maxCount (.bytes 4), .table lim.maxCount (.bytes 4)] ++
  List.replicate flags (.bytes 1) ++ [.bytes 8, .bytes 8, .bytes 8, .bytes 8, .bytes 8]

/-- A composition up to its paths. -/
def compositionLayout (id : Layout) (flags : ℕ) : List Layout := [
  id, .bytes 8, .bytes 8, .bytes 8, wordsLayout lim, .all (requestLayout lim flags),
  .all (graphLayout lim), .all (authorityLayout lim), .bytes 4, .bytes 8, .bytes 4, .bytes 8,
  .table lim.maxCount (.all (pathLayout lim))]

end Layouts

/-! ### Records -/

section Records

variable {D : Type} [Double D] [DoubleBits D] (lim : Limits)

omit [Double D] in
@[simp] theorem formatted_evidenceFields :
    Formatted (.block (evidenceFields lim) : Decoder (Evidence D)) (.all (evidenceLayout lim)) :=
  .block (by simp [evidenceFields, evidenceLayout])

@[simp] theorem formatted_capabilityFields :
    Formatted (.block (capabilityFields lim)) (.all (capabilityLayout lim)) :=
  .block (by simp [capabilityFields, capabilityLayout])

@[simp] theorem formatted_pinFields :
    Formatted (.block (pinFields lim)) (.all (pinLayout lim)) :=
  .block (by simp [pinFields, pinLayout])

@[simp] theorem formatted_compatibilityFields :
    Formatted (.block (compatibilityFields lim)) (.all (compatibilityLayout lim)) :=
  .block (by simp [compatibilityFields, compatibilityLayout])

@[simp] theorem formatted_capacityFields :
    Formatted (.block (capacityFields lim) : Decoder (Capacity D)) (.all (capacityLayout lim)) :=
  .block (by simp [capacityFields, capacityLayout, numbersLayout])

@[simp] theorem formatted_localityFields :
    Formatted (.block (localityFields lim) : Decoder (Locality D)) (.all (localityLayout lim)) :=
  .block (by simp [localityFields, localityLayout, wordsLayout, numbersLayout])

omit [Double D] [DoubleBits D] in
@[simp] theorem formatted_failureDomainFields :
    Formatted (.block (failureDomainFields lim) : Decoder (FailureDomain D))
      (.all (failureDomainLayout lim)) :=
  .block (by simp [failureDomainFields, failureDomainLayout])

/-- The two readers of a resource differ in the nested ones, which read the same bytes. -/
theorem formatted_resourceFields {evidence : Decoder (Evidence D)} {capability : Decoder Capability}
    {compatibility : Decoder Compatibility}
    (hevidence : Formatted evidence (.all (evidenceLayout lim)))
    (hcapability : Formatted capability (.all (capabilityLayout lim)))
    (hcompatibility : Formatted compatibility (.all (compatibilityLayout lim))) :
    List.Forall₂ Formatted (resourceFields lim evidence capability compatibility)
      (resourceLayout lim (.bytes 8)) := by
  simp [resourceFields, resourceLayout, hevidence, hcapability, hcompatibility]

theorem formatted_nodeFields :
    List.Forall₂ Formatted (nodeFields lim : List (Decoder (Node D)))
      (nodeLayout lim (.bytes 8)) := by
  simp [nodeFields, nodeLayout, wordsLayout]

omit [Double D] in
theorem formatted_pathFields {evidence : Decoder (Evidence D)}
    (h : Formatted evidence (.all (evidenceLayout lim))) :
    Formatted (.block (pathFields lim evidence)) (.all (pathLayout lim)) :=
  .block (by simp [pathFields, pathLayout, h])

omit [Double D] in
@[simp] theorem formatted_edgeFields :
    Formatted (.block (edgeFields lim) : Decoder (GraphEdge D)) (.all (edgeLayout lim)) :=
  .block (by simp [edgeFields, edgeLayout])

theorem formatted_graphFields :
    Formatted (.block (graphFields lim) : Decoder (ResourceGraph D)) (.all (graphLayout lim)) :=
  .block (by simp [graphFields, graphLayout, wordsLayout])

theorem formatted_authorityFields :
    Formatted (.block (authorityFields lim)) (.all (authorityLayout lim)) :=
  .block (by simp [authorityFields, authorityLayout, wordsLayout])

/-! ### The durable file -/

omit [Double D] in
theorem formatted_readRequest :
    Formatted (readRequest : Decoder (CompositionRequest D))
      (.all (requestLayout persistLimits 5)) :=
  .closed (.block (by simp [requestFields, requestLayout, List.replicate]))

omit [Double D] in
theorem formatted_readPath :
    Formatted (readPath : Decoder (PathEvidence D)) (.all (pathLayout persistLimits)) :=
  formatted_pathFields _ (.closed (formatted_evidenceFields _))

theorem formatted_compositionFields :
    List.Forall₂ Formatted (compositionFields : List (Decoder (Composition D)))
      (compositionLayout persistLimits (.bytes 8) 5) := by
  have hrequest := formatted_readRequest (D := D)
  have hgraph : Formatted (readGraph : Decoder (ResourceGraph D)) _ :=
    .closed (formatted_graphFields persistLimits)
  have hauthority : Formatted readAuthority _ := .closed (formatted_authorityFields persistLimits)
  have hpath := formatted_readPath (D := D)
  simp [compositionFields, compositionLayout, wordsLayout, hrequest, hgraph, hauthority, hpath]

/-! ### The wire -/

omit [Double D] in
theorem formatted_decodeEvidence :
    Formatted (decodeEvidence : Decoder (Evidence D)) (.all (evidenceLayout wireLimits)) :=
  .closed (formatted_evidenceFields _)

theorem formatted_decodeResource :
    Formatted (decodeResource : Decoder (Resource D))
      (.all (resourceLayout wireLimits (.bytes 8))) := by
  refine .closed (.block (formatted_resourceFields _ formatted_decodeEvidence ?_ ?_))
  · exact .closed (formatted_capabilityFields _)
  · exact .closed (formatted_compatibilityFields _)

theorem formatted_decodeNode :
    Formatted (decodeNode : Decoder (Node D)) (.all (nodeLayout wireLimits (.bytes 8))) :=
  .closed (.block (formatted_nodeFields _))

omit [Double D] in
theorem formatted_decodePath :
    Formatted (decodePath : Decoder (PathEvidence D)) (.all (pathLayout wireLimits)) :=
  formatted_pathFields _ formatted_decodeEvidence

theorem formatted_decodeGraph :
    Formatted (decodeGraph : Decoder (ResourceGraph D)) (.all (graphLayout wireLimits)) :=
  .closed (formatted_graphFields _)

theorem formatted_decodeAuthority :
    Formatted decodeAuthority (.all (authorityLayout wireLimits)) :=
  .closed (formatted_authorityFields _)

omit [Double D] in
theorem formatted_decodeRequest :
    Formatted (decodeRequest : Decoder (CompositionRequest D))
      (.all (requestLayout wireLimits 6)) :=
  .closed (.block (by simp [wireRequestFields, requestLayout, List.replicate]))

/-- A factor of a rank. -/
def factorLayout : List Layout := [
  .str wireLimits.maxLen, .bytes 8, .bytes 8, .str wireLimits.maxLen]

/-- A plan. -/
def planLayout : List Layout := [
  .bytes 8, .bytes 8, .all (graphLayout wireLimits), wordsLayout wireLimits,
  .all (requestLayout wireLimits 6), .bytes 8, .table wireLimits.maxCount (.all factorLayout),
  .all (authorityLayout wireLimits), .bytes 4,
  .table wireLimits.maxCount (.all (pathLayout wireLimits))]

omit [Double D] in
theorem formatted_factorFields :
    Formatted (.block factorFields : Decoder (RankingFactor D)) (.all factorLayout) :=
  .block (by simp [factorFields, factorLayout])

theorem formatted_decodePlan :
    Formatted (decodePlan : Decoder (CompositionPlan D)) (.all planLayout) := by
  refine .closed (.block ?_)
  simp [planFields, planLayout, wordsLayout, formatted_decodeGraph, formatted_decodeRequest,
    formatted_factorFields, formatted_decodeAuthority, formatted_decodePath]

theorem formatted_decodeComposition :
    Formatted (decodeComposition : Decoder (Composition D))
      (.all (compositionLayout wireLimits (.bytes 8) 6 ++ [.str wireLimits.maxLen])) := by
  refine .closed (.block ?_)
  simp [wireCompositionFields, compositionLayout, wordsLayout, formatted_decodeGraph,
    formatted_decodeRequest, formatted_decodeAuthority, formatted_decodePath]

/-- An item of a reservation. -/
def itemLayout : List Layout := [.bytes 8, .bytes 4, .bytes 8]

/-- A reservation. -/
def reservationLayout : List Layout := [
  .bytes 8, .bytes 8, .bytes 8, .table wireLimits.maxCount (.all itemLayout), .bytes 4]

theorem formatted_decodeReservation :
    Formatted (decodeReservation : Decoder (Reservation D)) (.all reservationLayout) := by
  have hitem : Formatted (.block itemFields : Decoder (ReservationItem D)) (.all itemLayout) :=
    .block (by simp [itemFields, itemLayout])
  exact .closed (.block (by simp [reservationFields, reservationLayout, hitem]))

end Records

end DFabric
