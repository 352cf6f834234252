import Cookpit.Lib.Bytes
import Cookpit.Lib.FirstMatch
import Cookpit.Lib.JsonText
import Cookpit.Lib.KeyStore
import Cookpit.Lib.Observed
import Cookpit.Lib.Paging
import Cookpit.Lib.QueryString
import Cookpit.Lib.Runs
import Cookpit.Lib.SharedPages
import Cookpit.Lib.Shown
import Cookpit.Lib.Streams
import Cookpit.Lib.Utf
import Cookpit.Json11
import Cookpit.Json11.Grammar
import Cookpit.Json11.Values
import Cookpit.Json11.Dump
import Cookpit.Json11.RoundTrip
import Cookpit.Utility
import Cookpit.Request
import Cookpit.Explore.Controller
import Cookpit.Explore.Laws
import Cookpit.Explore.Merge
import Cookpit.Explore.Sequential
import Cookpit.Explore.Overlap
import Cookpit.Explore.Reset
import Cookpit.Explore.Bounds
import Cookpit.Explore.Cache
import Cookpit.Explore.DataController
import Cookpit.Explore.Loading
import Cookpit.Explore.PageNumbers
import Cookpit.Explore.ErrorStream
import Cookpit.Explore.Sharing
import Cookpit.Map
import Cookpit.Map.Markers
import Cookpit.Map.Places
import Cookpit.Search
import Cookpit.Search.Address
import Cookpit.Search.Answers
import Cookpit.Search.Isolation
import Cookpit.Search.Pages
import Cookpit.Search.Recents
import Cookpit.Search.Screen
import Cookpit.Photo
import Cookpit.Photo.Screen
import Cookpit.ImageUrls
import Cookpit.Queries
import Cookpit.Protocol
import Cookpit.ErrorBodies
import Cookpit.Failures
import Cookpit.Djinni.Strings
import Cookpit.Djinni.Literals
import Cookpit.Djinni.ProxyCache
import Cookpit.Service
