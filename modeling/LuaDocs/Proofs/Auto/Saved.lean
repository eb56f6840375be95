import LuaDocs.Auto
import LuaDocs.Proofs.Description.Opening
import LuaDocs.Proofs.Render.Module

/-!
# Descriptions of analyzed objects keep what is saved

Whatever the bodies of directives and the texts of comments do to the context, and however a
description ends, what was saved in the context before it stays saved, if they keep it themselves. A
directive that describes an object of the tree saves the context before it does anything else and
takes away the uppermost values when it is done, so that the context is restored unless something
was left above them.
-/

namespace LuaDocs.Auto

open Render

variable {K : String → Prop} {site : Site} {child : MemberRenderer}

/-- The renderer of members keeps what is saved in the context. -/
def KeepsSaved (site : Site) (child : MemberRenderer) : Prop :=
  ∀ frame m, Respects site Kept (fun _ => True) (child frame m)

theorem kept_membersOf (m : Member) (options : Options) :
    Respects site Kept (fun _ => True) (membersOf m options) :=
  .bind_read (.bind .context fun _ => .lift fun _ _ => trivial)

theorem kept_renderMembers (hchild : KeepsSaved site child) (frame : Frame) (m : Member)
    (options : Options) :
    Respects site Kept (fun _ => True) (renderMembers child frame m options) :=
  .bind (kept_membersOf m options) fun _ => .bind (.mapM fun m _ => hchild frame m) fun _ => .pure _

theorem kept_newSection (title : String) : Respects site Kept (fun _ => True) (newSection title) :=
  (mild_newSection (fun _ => True) title).kept

theorem kept_renderGroups (hchild : KeepsSaved site child) (frame : Frame)
    (current : Option OpenGroup) (ms : List Member) :
    Respects site Kept (fun _ => True) (renderGroups child frame current ms) := by
  induction ms generalizing current with
  | nil => exact .pure _
  | cons m rest ih =>
    unfold renderGroups
    dsimp only
    split
    · split
      · exact .bind (.pure _) fun _ => .bind (hchild _ _) fun _ => .bind (ih _) fun _ => .pure _
      · exact .bind (kept_newSection _) fun _ => .bind (.pure _) fun _ =>
          .bind (hchild _ _) fun _ => .bind (ih _) fun _ => .pure _
    · exact .bind (kept_newSection _) fun _ => .bind (.pure _) fun _ =>
        .bind (hchild _ _) fun _ => .bind (ih _) fun _ => .pure _

theorem kept_moduleMembers (hchild : KeepsSaved site child) (frame : Frame) (m : Member)
    (options : Options) :
    Respects site Kept (fun _ => True) (moduleMembers child frame m options) := by
  unfold moduleMembers
  dsimp only
  refine .bind (kept_membersOf m options) fun ms => ?_
  split
  · exact kept_renderGroups hchild frame none ms
  · refine .bind (.mapM fun m _ => hchild frame m) fun nodes => ?_
    split
    · exact .pure _
    · split
      · exact .bind (kept_newSection _) fun _ => .pure _
      · exact .pure _

theorem mild_indexSection (F : Failure → Prop) (name : String) (options : Options) :
    Respects site (Mild K) F (indexSection name options) := by
  unfold indexSection
  dsimp only
  split
  · exact .pure _
  · exact .bind (mild_newSection F _) fun _ => .pure _

theorem mild_checkedKind (r : Request) :
    Respects site (Mild K) (fun _ => True) (checkedKind r) := by
  unfold checkedKind
  refine .bind .context fun c => ?_
  dsimp only
  split
  · exact .throw trivial
  · split
    · exact .pure _
    · split
      · exact .throw trivial
      · exact .pure _

section Careful

variable (hsite : site.Careful)

include hsite

theorem kept_documentation (o : Object) (t : ObjType) (options : Options)
    (fullname : Option String) :
    Respects site Kept (fun _ => True) (documentation o t options fullname) :=
  respects_documentation (fun _ _ => Mild.toKept) (fun _ _ => trivial)
    (textsRespect_of_careful hsite o) t options fullname

theorem kept_functionDescription {r : Request} (hbody : Respects site Kept (fun _ => True) r.body)
    (c : Callable) (t : ObjType) (options : Options) :
    Respects site Kept (fun _ => True) (functionDescription site r c t options).render := by
  refine Description.kept_render hbody fun _ _ => ?_
  refine .bind (kept_documentation hsite _ _ _ _) fun _ => ?_
  refine respects_withParameters (fun titles text _ => ?_) _ _
  exact (hsite titles text).mono (fun _ _ h => h) fun _ _ => trivial

theorem kept_plainDescription (hchild : KeepsSaved site child) {r : Request}
    (hbody : Respects site Kept (fun _ => True) r.body) (t : ObjType) (options : Options) :
    Respects site Kept (fun _ => True) (plainDescription site child r t options).render := by
  refine Description.kept_render hbody fun fullname nodes => ?_
  refine .bind (kept_documentation hsite _ _ _ _) fun _ => ?_
  dsimp only
  split
  · exact .bind (kept_renderMembers hchild _ _ _) fun _ => .pure _
  · exact .bind (.pure _) fun _ => .pure _

theorem kept_constructorNodes (hchild : KeepsSaved site child) (frame : Frame) (path : List String)
    (info : Object.ClassInfo) (docFrom : String) :
    Respects site Kept (fun _ => True) (constructorNodes child frame path info docFrom) := by
  unfold constructorNodes
  split
  · exact .pure _
  · dsimp only
    split
    · exact hchild _ _
    · split
      · exact .pure _
      · refine .bind (.lift fun _ _ => trivial) fun _ => ?_
        refine .bind (mild_dependOn (fun _ => True) _).kept fun _ => .bind_read ?_
        exact .bind (kept_functionDescription hsite (.pure []) _ _ _) fun _ => .pure _

theorem kept_classDescription (hchild : KeepsSaved site child) {r : Request}
    (hbody : Respects site Kept (fun _ => True) r.body) (info : Object.ClassInfo) (t : ObjType)
    (options : Options) :
    Respects site Kept (fun _ => True) (classDescription site child r info t options).render := by
  refine Description.kept_render hbody fun fullname nodes => ?_
  unfold classDescription
  dsimp only
  split
  · exact .bind (.pure _) fun _ => .bind (kept_constructorNodes hsite hchild _ _ _ _) fun _ =>
      .bind (kept_renderMembers hchild _ _ _) fun _ => .pure _
  · exact .bind (kept_documentation hsite _ _ _ _) fun _ =>
      .bind (kept_constructorNodes hsite hchild _ _ _ _) fun _ =>
        .bind (kept_renderMembers hchild _ _ _) fun _ => .pure _

theorem kept_describe (hchild : KeepsSaved site child) {r : Request}
    (hbody : Respects site Kept (fun _ => True) r.body) (c : Context) (kind : Kind)
    (options : Options) :
    Respects site Kept (fun _ => True) (describe site c child r kind options).render := by
  unfold describe
  split
  · exact kept_functionDescription hsite hbody _ _ _
  · exact kept_classDescription hsite hchild hbody _ _ _
  · exact kept_plainDescription hsite hchild hbody _ _

/-! ### Pages -/

theorem kept_describeModule (hchild : KeepsSaved site child) {r : Request}
    (hbody : Respects site Kept (fun _ => True) r.body) (name : String) (options : Options) :
    Respects site Kept (fun _ => True) (describeModule child r name options) := by
  unfold describeModule
  dsimp only
  have hpage : Respects site Kept (fun _ => True) (do
      let site ← read
      Render.dependOn r.member.object.details.files
      let heading ← ModuleDirective.start (some name) (options.withDefaults site.defaults)
      let body ← r.body
      let docs ← documentation r.member.object .module_ (options.withDefaults site.defaults)
        (some name)
      let index ← indexSection name (options.withDefaults site.defaults)
      let members ← moduleMembers child ⟨name, options⟩ r.member
        (options.withDefaults site.defaults)
      return heading ++ body ++ docs ++ index ++ members) :=
    .bind_read (.bind (mild_dependOn (fun _ => True) _).kept fun _ =>
      .bind (ModuleDirective.kept_start _ _) fun _ => .bind hbody fun _ =>
        .bind (kept_documentation hsite _ _ _ _) fun _ =>
          .bind (mild_indexSection (fun _ => True) _ _).kept fun _ =>
          .bind (kept_moduleMembers hchild _ _ _) fun _ => .pure _)
  split
  · exact .bind (.throw trivial) fun _ => hpage
  · exact hpage

/-! ### Any object -/

theorem kept_renderLevel (hchild : KeepsSaved site child) (frame : Frame) {r : Request}
    (hbody : Respects site Kept (fun _ => True) r.body) :
    Respects site Kept (fun _ => True) (renderLevel child frame r) := by
  unfold renderLevel
  refine .bind (mild_checkedKind r).kept fun kind => .bind .context fun c => ?_
  refine .bind (.lift fun _ _ => trivial) fun options => ?_
  split
  · exact kept_describeModule hsite hchild hbody _ options
  · exact .bind (mild_dependOn (fun _ => True) _).kept fun _ =>
      .bind_read (kept_describe hsite hchild hbody c kind options)

/-- A description at any depth keeps what is saved in the context. -/
theorem kept_render (depth : Nat) (frame : Frame) {r : Request}
    (hbody : Respects site Kept (fun _ => True) r.body) :
    Respects site Kept (fun _ => True) (render depth frame r) := by
  induction depth generalizing frame r with
  | zero => exact .throw trivial
  | succ depth ih =>
    rw [render]
    exact kept_renderLevel hsite (fun frame m => ih frame (.pure [])) frame hbody

/-- **A directive that describes an object of the tree restores the context**, however it ends,
unless a description is left open. -/
theorem guarded_run (wanted : Option ObjType) (argument : Option String) (options : Options)
    {body : Render (List Node)} (hbody : Respects site Kept (fun _ => True) body) :
    Respects site Guarded (fun _ => True) (run wanted argument options body) := by
  refine ⟨fun s => ?_⟩
  have hsame : Guarded s s := (Mild.refl s).toGuarded
  unfold run
  rw [ensures_bind, ensures_read]
  dsimp only
  split
  · rw [ensures_bind, ensures_error]
    exact ⟨trivial, hsame⟩
  rw [ensures_bind, ensures_orFail]
  refine ⟨fun text _ => ?_, fun _ => ⟨trivial, hsame⟩⟩
  rw [ensures_bind, ensures_context, ensures_bind, ensures_lift]
  refine ⟨?_, fun e _ => ⟨trivial, hsame⟩⟩
  rintro ⟨target, signatures⟩ -
  rw [ensures_bind, ensures_pushContext, ensures_thenPop]
  refine ((kept_render hsite site.depth ⟨text, options⟩ hbody).ensures _).mono ?_ ?_
  · intro nodes t hst
    exact hst.guarded_pop (.inContext s _) rfl
  · rintro e t ⟨-, hst⟩
    exact ⟨trivial, hst.guarded_pop (.inContext s _) rfl⟩

end Careful

end LuaDocs.Auto
