import XPathLocator.Main
import XPathLocator.Proofs.Command
import XPathLocator.Proofs.Config.Loaded
import XPathLocator.Proofs.Css.Attribute
import XPathLocator.Proofs.Css.Compound
import XPathLocator.Proofs.Css.Confined
import XPathLocator.Proofs.Css.LetterCase
import XPathLocator.Proofs.Css.Name
import XPathLocator.Proofs.Css.Progress
import XPathLocator.Proofs.Css.Recognition
import XPathLocator.Proofs.Css.Refusal
import XPathLocator.Proofs.Css.RoundTrip
import XPathLocator.Proofs.Css.Separator
import XPathLocator.Proofs.Css.Sibling
import XPathLocator.Proofs.Css.TypeName
import XPathLocator.Proofs.Css.Union
import XPathLocator.Proofs.Css.Unsupported
import XPathLocator.Proofs.Locator.Comparison
import XPathLocator.Proofs.Locator.Label
import XPathLocator.Proofs.Locator.Position
import XPathLocator.Proofs.Locator.Rule
import XPathLocator.Proofs.Locator.Selector
import XPathLocator.Proofs.Locator.Word
import XPathLocator.Proofs.Registry
import XPathLocator.Proofs.Report.Decoding
import XPathLocator.Proofs.XPath.Expr
