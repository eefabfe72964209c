import Nodra.Lib.JsonStruct
import Nodra.Model.Types

/-! One line of `state.wal`, and the typed mutation it stands for. -/
namespace Nodra.Store
open Lines JsonString JsonText JsonStruct Model List

/-- The JSON of the model types.  The snapshot is indented, so it is only known
to round-trip and not to be empty. -/
structure Codecs where
  site : Codec Site
  device : Codec Device
  twin : Codec Twin
  route : Codec Route
  deployment : Codec Deployment
  policyPack : Codec PolicyPack
  otaCampaign : Codec OTACampaign
  org : Codec Org
  alert : Codec Alert
  event : Codec Event
  string : Codec String
  marshalState : State → Bytes
  unmarshalState : Bytes → Option State
  unmarshalState_marshalState : ∀ state, unmarshalState (marshalState state) = some state
  marshalState_ne_nil : ∀ state, marshalState state ≠ []

inductive OpType where
  | siteAdd
  | siteSet
  | deviceAdd
  | twinSet
  | routeAdd
  | routeDel
  | deploymentAdd
  | deploymentSet
  | deploymentDel
  | policyAdd
  | policySet
  | policyDel
  | otaCampaignAdd
  | otaCampaignSet
  | orgAdd
  | orgSet
  | orgDel
  | alertAdd
  | alertSet
  | eventAdd
  | other (name : Bytes)
deriving DecidableEq

def OpType.name : OpType → Bytes
  | .siteAdd => ascii "site.add"
  | .siteSet => ascii "site.set"
  | .deviceAdd => ascii "device.add"
  | .twinSet => ascii "twin.set"
  | .routeAdd => ascii "route.add"
  | .routeDel => ascii "route.del"
  | .deploymentAdd => ascii "deployment.add"
  | .deploymentSet => ascii "deployment.set"
  | .deploymentDel => ascii "deployment.del"
  | .policyAdd => ascii "policy.add"
  | .policySet => ascii "policy.set"
  | .policyDel => ascii "policy.del"
  | .otaCampaignAdd => ascii "ota_campaign.add"
  | .otaCampaignSet => ascii "ota_campaign.set"
  | .orgAdd => ascii "org.add"
  | .orgSet => ascii "org.set"
  | .orgDel => ascii "org.del"
  | .alertAdd => ascii "alert.add"
  | .alertSet => ascii "alert.set"
  | .eventAdd => ascii "event.add"
  | .other name => name

def OpType.known : List OpType :=
  [.siteAdd, .siteSet, .deviceAdd, .twinSet, .routeAdd, .routeDel, .deploymentAdd,
    .deploymentSet, .deploymentDel, .policyAdd, .policySet, .policyDel, .otaCampaignAdd,
    .otaCampaignSet, .orgAdd, .orgSet, .orgDel, .alertAdd, .alertSet, .eventAdd]

def OpType.ofName (name : Bytes) : OpType :=
  (OpType.known.find? fun type => type.name = name).getD (.other name)

structure Op where
  type : OpType := .other []
  data : Bytes := []
  id : String := ""

def Op.fields (codecs : Codecs) (o : Op) : List (Bytes × Bytes) :=
  [(ascii "type", quote o.type.name)] ++
    (if o.data = [] then [] else [(ascii "data", o.data)]) ++
    (if o.id = "" then [] else [(ascii "id", codecs.string.marshal o.id)])

def Op.marshal (codecs : Codecs) (o : Op) : Bytes := renderObject (o.fields codecs)

def Op.setField (codecs : Codecs) (o : Op) (field : Bytes × Bytes) : Option Op :=
  let name := fieldName field.1
  if name = ascii "type" then
    (readString o.type.name field.2).map fun value => { o with type := .ofName value }
  else if name = ascii "data" then some { o with data := field.2 }
  else if name = ascii "id" then
    match codecs.string.unmarshal field.2 with
    | some value => some { o with id := value }
    | none => if field.2 = ascii "null" then some o else none
  else some o

def Op.unmarshal (codecs : Codecs) (line : Bytes) : Option Op :=
  JsonStruct.unmarshal (Op.setField codecs) {} line

inductive Mutation where
  | siteAdd (v : Site)
  | siteSet (v : Site)
  | deviceAdd (v : Device)
  | twinSet (v : Twin)
  | routeAdd (v : Route)
  | routeDel (id : String)
  | deploymentAdd (v : Deployment)
  | deploymentSet (v : Deployment)
  | deploymentDel (id : String)
  | policyAdd (v : PolicyPack)
  | policySet (v : PolicyPack)
  | policyDel (id : String)
  | otaCampaignAdd (v : OTACampaign)
  | otaCampaignSet (v : OTACampaign)
  | orgAdd (v : Org)
  | orgSet (v : Org)
  | orgDel (id : String)
  | alertAdd (v : Alert)
  | alertSet (v : Alert)
  | eventAdd (v : Event)

def Mutation.op (codecs : Codecs) : Mutation → Op
  | .siteAdd v => { type := .siteAdd, data := codecs.site.marshal v }
  | .siteSet v => { type := .siteSet, data := codecs.site.marshal v }
  | .deviceAdd v => { type := .deviceAdd, data := codecs.device.marshal v }
  | .twinSet v => { type := .twinSet, data := codecs.twin.marshal v }
  | .routeAdd v => { type := .routeAdd, data := codecs.route.marshal v }
  | .routeDel id => { type := .routeDel, id := id }
  | .deploymentAdd v => { type := .deploymentAdd, data := codecs.deployment.marshal v }
  | .deploymentSet v => { type := .deploymentSet, data := codecs.deployment.marshal v }
  | .deploymentDel id => { type := .deploymentDel, id := id }
  | .policyAdd v => { type := .policyAdd, data := codecs.policyPack.marshal v }
  | .policySet v => { type := .policySet, data := codecs.policyPack.marshal v }
  | .policyDel id => { type := .policyDel, id := id }
  | .otaCampaignAdd v => { type := .otaCampaignAdd, data := codecs.otaCampaign.marshal v }
  | .otaCampaignSet v => { type := .otaCampaignSet, data := codecs.otaCampaign.marshal v }
  | .orgAdd v => { type := .orgAdd, data := codecs.org.marshal v }
  | .orgSet v => { type := .orgSet, data := codecs.org.marshal v }
  | .orgDel id => { type := .orgDel, id := id }
  | .alertAdd v => { type := .alertAdd, data := codecs.alert.marshal v }
  | .alertSet v => { type := .alertSet, data := codecs.alert.marshal v }
  | .eventAdd v => { type := .eventAdd, data := codecs.event.marshal v }

def Op.mutation (codecs : Codecs) (o : Op) : Option Mutation :=
  match o.type with
  | .siteAdd => some (.siteAdd ((codecs.site.unmarshal o.data).getD {}))
  | .siteSet => some (.siteSet ((codecs.site.unmarshal o.data).getD {}))
  | .deviceAdd => some (.deviceAdd ((codecs.device.unmarshal o.data).getD {}))
  | .twinSet => some (.twinSet ((codecs.twin.unmarshal o.data).getD {}))
  | .routeAdd => some (.routeAdd ((codecs.route.unmarshal o.data).getD {}))
  | .routeDel => some (.routeDel o.id)
  | .deploymentAdd => some (.deploymentAdd ((codecs.deployment.unmarshal o.data).getD {}))
  | .deploymentSet => some (.deploymentSet ((codecs.deployment.unmarshal o.data).getD {}))
  | .deploymentDel => some (.deploymentDel o.id)
  | .policyAdd => some (.policyAdd ((codecs.policyPack.unmarshal o.data).getD {}))
  | .policySet => some (.policySet ((codecs.policyPack.unmarshal o.data).getD {}))
  | .policyDel => some (.policyDel o.id)
  | .otaCampaignAdd => some (.otaCampaignAdd ((codecs.otaCampaign.unmarshal o.data).getD {}))
  | .otaCampaignSet => some (.otaCampaignSet ((codecs.otaCampaign.unmarshal o.data).getD {}))
  | .orgAdd => some (.orgAdd ((codecs.org.unmarshal o.data).getD {}))
  | .orgSet => some (.orgSet ((codecs.org.unmarshal o.data).getD {}))
  | .orgDel => some (.orgDel o.id)
  | .alertAdd => some (.alertAdd ((codecs.alert.unmarshal o.data).getD {}))
  | .alertSet => some (.alertSet ((codecs.alert.unmarshal o.data).getD {}))
  | .eventAdd => some (.eventAdd ((codecs.event.unmarshal o.data).getD {}))
  | .other _ => none

theorem mutation_op (codecs : Codecs) (m : Mutation) :
    (m.op codecs).mutation codecs = some m := by
  cases m <;> simp [Mutation.op, Op.mutation, Codec.unmarshal_marshal]

structure Op.Carried (o : Op) : Prop where
  type : o.type ∈ OpType.known
  data : o.data = [] ∨ IsCompact o.data

theorem carried_op (codecs : Codecs) (m : Mutation) : (m.op codecs).Carried := by
  cases m <;> constructor <;> simp [Mutation.op, OpType.known, Codec.isCompact_marshal]

private theorem known_spec :
    ∀ type ∈ OpType.known, isValid type.name = true ∧ OpType.ofName type.name = type := by
  decide +kernel

theorem Op.Carried.fields_valid {o : Op} (h : o.Carried) (codecs : Codecs) :
    ∀ field ∈ o.fields codecs, isValid field.1 = true ∧ IsCompact field.2 := by
  have hnames : ∀ name ∈ [ascii "type", ascii "data", ascii "id"], isValid name = true := by
    decide +kernel
  intro field hfield
  simp only [Op.fields, mem_append, mem_singleton] at hfield
  rcases hfield with (rfl | hdata) | hid
  · exact ⟨hnames _ (by simp), isCompact_quote _ (known_spec o.type h.type).1⟩
  · split at hdata
    · simp at hdata
    · rename_i hne
      rw [mem_singleton.mp hdata]
      exact ⟨hnames _ (by simp), h.data.resolve_left hne⟩
  · split at hid
    · simp at hid
    · rw [mem_singleton.mp hid]
      exact ⟨hnames _ (by simp), codecs.string.isCompact_marshal _⟩

theorem Op.unmarshal_marshal {o : Op} (h : o.Carried) (codecs : Codecs) :
    unmarshal codecs (o.marshal codecs) = some o := by
  have htype (x : Op) :
      x.setField codecs (ascii "type", quote o.type.name) = some { x with type := o.type } := by
    have hname : fieldName (ascii "type") = ascii "type" := by decide +kernel
    obtain ⟨hvalid, hof⟩ := known_spec o.type h.type
    simp [setField, hname, readString_quote _ _ hvalid, hof]
  have hdata (x : Op) : x.setField codecs (ascii "data", o.data) = some { x with data := o.data } := by
    have hname : fieldName (ascii "data") = ascii "data" := by decide
    have hne : ascii "data" ≠ ascii "type" := by decide
    simp [setField, hname, hne]
  have hid (x : Op) : x.setField codecs (ascii "id", codecs.string.marshal o.id) =
      some { x with id := o.id } := by
    have hname : fieldName (ascii "id") = ascii "id" := by decide
    have hne : ascii "id" ≠ ascii "type" ∧ ascii "id" ≠ ascii "data" := by decide
    simp [setField, hname, hne, codecs.string.unmarshal_marshal]
  have hread : unmarshal codecs (o.marshal codecs) =
      (o.fields codecs).foldlM (setField codecs) {} :=
    unmarshal_renderObject _ _ _ (h.fields_valid codecs)
  obtain ⟨type, data, id⟩ := o
  rw [hread, fields, foldlM_append, foldlM_append, foldlM_cons, htype]
  by_cases hnil : data = [] <;> by_cases hempty : id = "" <;>
    simp_all [foldlM_cons, foldlM_nil]

theorem Op.Carried.isLine {o : Op} (h : o.Carried) (codecs : Codecs) {limit : Nat}
    (hlimit : (o.marshal codecs).length < limit) : IsLine limit (o.marshal codecs) :=
  isLine_renderObject _ (fun field hfield => (h.fields_valid codecs field hfield).2) hlimit

end Nodra.Store
