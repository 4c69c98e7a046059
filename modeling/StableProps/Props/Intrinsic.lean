import StableProps.Module.Project
import StableProps.Text.Case
import StableProps.Text.Word

/-!
# Plain elements

Elements with a name in lower case are known to the rendering library. Their attributes have types
that the typings of the library declare.
-/

namespace StableProps.Intrinsic

/-- Types that the library exports and attribute types refer to. -/
def exportedTypes : List String :=
  ["AnimationEventHandler", "CSSProperties", "ChangeEventHandler", "ClipboardEventHandler",
   "ComponentProps", "CompositionEventHandler", "DragEventHandler", "FocusEventHandler",
   "FormEventHandler", "KeyboardEventHandler", "MouseEventHandler", "PointerEventHandler",
   "ReactEventHandler", "ReactNode", "Ref", "TouchEventHandler", "TransitionEventHandler",
   "UIEventHandler", "WheelEventHandler"]

/-- Elements with the interfaces of their nodes. -/
def elementInterfaces : List (String × String) :=
  [("a", "HTMLAnchorElement"), ("area", "HTMLAreaElement"), ("audio", "HTMLAudioElement"),
   ("base", "HTMLBaseElement"), ("blockquote", "HTMLQuoteElement"), ("body", "HTMLBodyElement"),
   ("br", "HTMLBRElement"), ("button", "HTMLButtonElement"), ("canvas", "HTMLCanvasElement"),
   ("caption", "HTMLTableCaptionElement"), ("col", "HTMLTableColElement"),
   ("colgroup", "HTMLTableColElement"), ("data", "HTMLDataElement"),
   ("datalist", "HTMLDataListElement"), ("details", "HTMLDetailsElement"),
   ("dialog", "HTMLDialogElement"), ("div", "HTMLDivElement"), ("dl", "HTMLDListElement"),
   ("embed", "HTMLEmbedElement"), ("fieldset", "HTMLFieldSetElement"),
   ("form", "HTMLFormElement"), ("h1", "HTMLHeadingElement"), ("h2", "HTMLHeadingElement"),
   ("h3", "HTMLHeadingElement"), ("h4", "HTMLHeadingElement"), ("h5", "HTMLHeadingElement"),
   ("h6", "HTMLHeadingElement"), ("head", "HTMLHeadElement"), ("hr", "HTMLHRElement"),
   ("html", "HTMLHtmlElement"), ("iframe", "HTMLIFrameElement"), ("img", "HTMLImageElement"),
   ("input", "HTMLInputElement"), ("label", "HTMLLabelElement"), ("legend", "HTMLLegendElement"),
   ("li", "HTMLLIElement"), ("link", "HTMLLinkElement"), ("map", "HTMLMapElement"),
   ("meta", "HTMLMetaElement"), ("meter", "HTMLMeterElement"), ("object", "HTMLObjectElement"),
   ("ol", "HTMLOListElement"), ("optgroup", "HTMLOptGroupElement"),
   ("option", "HTMLOptionElement"), ("output", "HTMLOutputElement"),
   ("p", "HTMLParagraphElement"), ("pre", "HTMLPreElement"), ("progress", "HTMLProgressElement"),
   ("q", "HTMLQuoteElement"), ("script", "HTMLScriptElement"), ("select", "HTMLSelectElement"),
   ("source", "HTMLSourceElement"), ("span", "HTMLSpanElement"), ("style", "HTMLStyleElement"),
   ("table", "HTMLTableElement"), ("tbody", "HTMLTableSectionElement"),
   ("td", "HTMLTableDataCellElement"), ("template", "HTMLTemplateElement"),
   ("textarea", "HTMLTextAreaElement"), ("tfoot", "HTMLTableSectionElement"),
   ("th", "HTMLTableHeaderCellElement"), ("thead", "HTMLTableSectionElement"),
   ("time", "HTMLTimeElement"), ("title", "HTMLTitleElement"), ("tr", "HTMLTableRowElement"),
   ("track", "HTMLTrackElement"), ("ul", "HTMLUListElement"), ("video", "HTMLVideoElement"),
   ("svg", "SVGSVGElement"), ("circle", "SVGCircleElement"), ("g", "SVGGElement"),
   ("line", "SVGLineElement"), ("path", "SVGPathElement"), ("polygon", "SVGPolygonElement"),
   ("rect", "SVGRectElement"), ("text", "SVGTextElement")]

/-- Attributes that take a text. -/
def stringAttributes : List String :=
  ["alt", "className", "href", "htmlFor", "id", "lang", "name", "placeholder", "rel", "role",
   "src", "target", "title"]

/-- Types of handlers with the events that they handle, without the leading `on`. -/
def eventHandlers : List (String × List String) :=
  [("MouseEventHandler", ["Click", "DoubleClick", "ContextMenu", "AuxClick", "MouseDown", "MouseUp",
      "MouseEnter", "MouseLeave", "MouseMove", "MouseOver", "MouseOut"]),
   ("DragEventHandler", ["Drag", "DragEnd", "DragEnter", "DragExit", "DragLeave", "DragOver",
      "DragStart", "Drop"]),
   ("KeyboardEventHandler", ["KeyDown", "KeyUp", "KeyPress"]),
   ("FocusEventHandler", ["Focus", "Blur"]),
   ("FormEventHandler", ["Input", "Submit", "Reset", "Invalid", "BeforeInput"]),
   ("UIEventHandler", ["Scroll"]),
   ("WheelEventHandler", ["Wheel"]),
   ("TouchEventHandler", ["TouchStart", "TouchEnd", "TouchMove", "TouchCancel"]),
   ("PointerEventHandler", ["GotPointerCapture", "LostPointerCapture"]),
   ("AnimationEventHandler", ["AnimationStart", "AnimationEnd", "AnimationIteration"]),
   ("TransitionEventHandler", ["TransitionEnd", "TransitionStart", "TransitionRun",
      "TransitionCancel"]),
   ("ClipboardEventHandler", ["Copy", "Cut", "Paste"]),
   ("CompositionEventHandler", ["CompositionStart", "CompositionUpdate", "CompositionEnd"])]

/-- Whether a tag is written like a plain element. -/
def isTag (name : String) : Bool :=
  name.toList.head?.any Text.isLowercase && !name.toList.contains '.'

/-- The interface of the nodes of an element. -/
def elementInterface (tag : String) : String := (elementInterfaces.lookup tag).getD "HTMLElement"

/-- Whether an event is one of those of pointers. -/
def isPointerEvent (event : String) : Bool :=
  Text.startsWith event "Pointer" && "Pointer".length < event.length &&
    (event.toList.drop "Pointer".length).all Text.isWordChar

/-- The type of the handler of an event, which is named without the leading `on`. -/
def handlerOf (tag event : String) : Option String :=
  if event = "Change" then
    some (if ["input", "select", "textarea"].contains tag then "ChangeEventHandler"
      else "FormEventHandler")
  else if isPointerEvent event then some "PointerEventHandler"
  else match eventHandlers.find? (·.2.contains event) with
    | some (handler, _) => some handler
    | none =>
      if event.toList.head?.any fun c => 'A' ≤ c && c ≤ 'Z' then some "ReactEventHandler" else none

/-- The text of the type of an attribute, where it is known. Every attribute may be left out. -/
def attributeType? (tag attr : String) : Option String :=
  let interface := elementInterface tag
  if attr = "style" then some "CSSProperties"
  else if attr = "ref" then some ("Ref<" ++ interface ++ ">")
  else if attr = "children" then some "ReactNode"
  else if stringAttributes.contains attr then some "string"
  else if attr = "dangerouslySetInnerHTML" then
    some "\x7b __html: string | TrustedHTML \x7d"
  else
    let event := if Specifier.endsWith attr "Capture" then Specifier.dropLast attr 7 else attr
    if Text.startsWith event "on" then
      (handlerOf tag (Specifier.dropFirst event 2)).map fun h => h ++ "<" ++ interface ++ ">"
    else none

/-- Binds the names of types that the library exports. -/
def bind (name : String) (qualifier : Option String) : Id (Option TypeDeclaration) :=
  let known := exportedTypes ++ ["Dispatch", "SetStateAction", "MutableRefObject", "RefObject"]
  if qualifier.isNone && known.contains name then some (Project.externalMember reactModule name)
  else none

/-- The type that a text stands for among the types of the library. -/
def type? (text : String) : Option TypeExpr := do
  let root := parse .typescript ("type __T = " ++ text ++ ";")
  let value ← (← root.firstNamed?).child? .value
  return TypeExpr.build bind value

end StableProps.Intrinsic
